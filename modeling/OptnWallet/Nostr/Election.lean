import Mathlib.Data.List.Dedup
import Mathlib.Data.String.Basic
import OptnWallet.Nostr.Allocation

/-
  The election of a coordinator.  Each candidate of a set has a ticket that depends on the whole
  set, and the least ticket wins, whatever order the candidates came in.

  Main declarations:
    * `Nostr.electCoordinator`
    * `Nostr.canonicalParticipants`
    * `Nostr.outranks`
-/

--- Tickets

namespace OptnWallet.Nostr

/- Two hashes of 32 bits that run over the text.  Keys are text of ASCII, so that characters are
   units. -/
def ticketHashes : Nat → UInt32 × UInt32 → List Char → UInt32 × UInt32
  | _, hashes, [] => hashes
  | i, hashes, c :: cs => ticketHashes (i + 1)
      ((hashes.1 ^^^ UInt32.ofNat c.toNat) * 0x01000193,
        (hashes.2 ^^^ UInt32.ofNat (c.toNat + i)) * 0x85ebca6b) cs

/- As text both hashes have eight digits, so that tickets are compared as the numbers are. -/
def electionTicket (commitment : List Char) (candidate : String) : Nat :=
  let hashes := ticketHashes 0 (0x811c9dc5, 0x01000193) (commitment ++ '#' :: candidate.toList)
  hashes.1.toNat * 2 ^ 32 + hashes.2.toNat

/- Whether the first candidate goes before the second. -/
def beats (commitment : List Char) (first second : String) : Bool :=
  let ticket := electionTicket commitment first
  let best := electionTicket commitment second
  ticket < best ∨ ticket = best ∧ first < second

def winnerOf (commitment : List Char) : String → List String → String
  | winner, [] => winner
  | winner, candidate :: candidates =>
    if beats commitment candidate winner then winnerOf commitment candidate candidates
    else winnerOf commitment winner candidates

/- The text of all candidates in order. -/
def commitmentOf (candidates : List String) : List Char :=
  ['|'].intercalate ((candidates.insertionSort (· ≤ ·)).map String.toList)

def electCoordinator (pubkeys : List String) : Option String :=
  let candidates := pubkeys.dedup.filter (fun key => 0 < key.length)
  match candidates with
  | [] => none
  | [only] => some only
  | first :: others => some (winnerOf (commitmentOf candidates) first others)

--- Participants

/- The least number of players that is safe is no more than the largest number. -/
structure FusionKnobs where
  minSafePlayers : Nat
  maxPlayers : Nat
  three_le : 3 ≤ minSafePlayers
  min_le_max : minSafePlayers ≤ maxPlayers
  max_le : maxPlayers ≤ 20

def isPubkey (text : String) : Bool := text.length = 64 && text.toList.all isLowerHexChar

/- A key of one digit. -/
def sampleKey (digit : Char) : String := String.ofList (List.replicate 64 digit)

/- Keys in order, each of them once, and no more than there may be players. -/
def canonicalParticipants (knobs : FusionKnobs) (candidates : List String) : List String :=
  ((candidates.filter isPubkey).dedup.insertionSort (· ≤ ·)).take knobs.maxPlayers

/- Both sides of a split derive the same union and elect over it. -/
def outranks (knobs : FusionKnobs) (sender : String)
    (theirParticipants mineParticipants : List String) : Bool :=
  electCoordinator (canonicalParticipants knobs (mineParticipants ++ theirParticipants)) =
    some sender

/- A list that is its own canonical form. -/
structure Canonical (knobs : FusionKnobs) (participants : List String) : Prop where
  sorted : participants.Pairwise (· < ·)
  keys : ∀ peer ∈ participants, isPubkey peer = true
  length_le : participants.length ≤ knobs.maxPlayers

theorem canonical_canonicalParticipants (knobs : FusionKnobs) (candidates : List String) :
    Canonical knobs (canonicalParticipants knobs candidates) := by
  have hNodup : (candidates.filter isPubkey).dedup.Nodup := List.nodup_dedup _
  constructor
  · unfold canonicalParticipants
    apply List.Pairwise.take
    have hSorted := List.pairwise_insertionSort (· ≤ ·) (candidates.filter isPubkey).dedup
    have hApart :=
      (List.perm_insertionSort (· ≤ ·) (candidates.filter isPubkey).dedup).nodup_iff.mpr hNodup
    exact (hSorted.and hApart).imp (fun hBoth => lt_of_le_of_ne hBoth.1 hBoth.2)
  · intro peer hMem
    have hIn := List.mem_of_mem_take hMem
    rw [List.mem_insertionSort, List.mem_dedup, List.mem_filter] at hIn
    exact hIn.2
  · unfold canonicalParticipants
    rw [List.length_take]
    exact Nat.min_le_left _ _

end OptnWallet.Nostr
