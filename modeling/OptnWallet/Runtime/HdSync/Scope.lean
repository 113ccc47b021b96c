import OptnWallet.Runtime.HdSync

/-
  What a scan watches stays watched: derivation appends, and no round makes a branch shorter.

  Main declarations:
    * `Watches`
    * `Watches.advance`
    * `mem_interests_iff`
-/

--- Derived Addresses

namespace OptnWallet.HdAccountScan

open StagedUpdate

variable {codecs : WalletCodecs}

/- No derived address is lost or moved. -/
def Appends (scan scan' : HdAccountScan) : Prop :=
  ∀ branch : Fin 4, scan.derived.get branch <+: scan'.derived.get branch

theorem Appends.refl (scan : HdAccountScan) : Appends scan scan :=
  fun _ => List.prefix_rfl

variable {scan scan' : HdAccountScan}

theorem Appends.trans {scan'' : HdAccountScan} (hFirst : Appends scan scan')
    (hSecond : Appends scan' scan'') : Appends scan scan'' :=
  fun branch => (hFirst branch).trans (hSecond branch)

/- By induction over the count. -/
theorem deriveMore_appends (branch : Fin 4) (count : Nat) (scan : HdAccountScan) :
    Appends scan (deriveMore codecs branch count scan).1 := by
  induction count generalizing scan with
  | zero => exact Appends.refl scan
  | succ count ih =>
    unfold deriveMore
    dsimp only
    split
    · exact Appends.refl scan
    · apply Appends.trans _ (ih _)
      intro other
      change scan.derived[other] <+: (scan.derived.set branch (scan.derived[branch] ++ _))[other]
      rw [getElem_set]
      split
      · rename_i hSame
        rw [hSame]
        exact List.prefix_append _ _
      · exact List.prefix_rfl

variable {result : Except ScanFailure Bool}

theorem extend_appends {branch : Fin 4} {last : Option Nat}
    (hExtend : scan.extend codecs branch last = (scan', result)) : Appends scan scan' := by
  unfold extend deriveThrough at hExtend
  dsimp only at hExtend
  generalize min
    (max ((last.map (fun index => index + 1)).getD 0 + scan.limits.gapLimit.toNat)
      scan.minimum[branch]) scan.cap = horizon at hExtend
  have hAppends :=
    @deriveMore_appends codecs branch (horizon - scan.derived[branch].length)
      { scan with horizon := scan.horizon.set branch horizon }
  split at hExtend
  · rename_i next failure hDerive
    cases hExtend
    rw [hDerive] at hAppends
    exact hAppends
  · rename_i next hDerive
    cases hExtend
    rw [hDerive] at hAppends
    exact hAppends

theorem advanceBranch_appends {used : Finset (List UInt8)} {branch : Fin 4}
    (hAdvance : advanceBranch codecs used scan branch = (scan', result)) : Appends scan scan' := by
  unfold advanceBranch at hAdvance
  split at hAdvance
  · cases hAdvance
    exact Appends.refl scan
  split at hAdvance
  · cases hAdvance
    exact Appends.refl scan
  dsimp only at hAdvance
  split at hAdvance
  · cases hAdvance
    exact Appends.refl scan
  · cases hAdvance
    exact Appends.refl scan
  · have hAppends := extend_appends hAdvance
    exact hAppends

/- By induction over the branches. -/
theorem advanceBranches_appends {used : Finset (List UInt8)} {branches : List (Fin 4)}
    {complete : Bool}
    (hAdvance : advanceBranches codecs used branches scan complete = (scan', result)) :
    Appends scan scan' := by
  induction branches generalizing scan complete with
  | nil =>
    cases hAdvance
    exact Appends.refl _
  | cons branch rest ih =>
    unfold advanceBranches at hAdvance
    split at hAdvance
    · rename_i next failure hBranch
      cases hAdvance
      exact advanceBranch_appends hBranch
    · rename_i next done hBranch
      have hFirst := advanceBranch_appends hBranch
      exact hFirst.trans (ih hAdvance)

theorem advance_appends (codecs : WalletCodecs) (scan : HdAccountScan)
    (snapshot : WalletNetworkSnapshot) : Appends scan (scan.advance codecs snapshot).1 := by
  unfold advance
  split
  · exact Appends.refl _
  split
  · exact Appends.refl _
  split
  · exact Appends.refl _
  · exact advanceBranches_appends Prod.mk.eta.symm

--- Watched Scripts

/- Some address that is scanned locks to the script. -/
def Watches (codecs : WalletCodecs) (scan : HdAccountScan) (script : List UInt8) : Prop :=
  ∃ branch,
    ∃ preview ∈ scan.scanned branch,
      ∃ parsed, codecs.decodeAddress preview.address = .ok parsed ∧ parsed.scriptPubkey = script

theorem mem_addresses_iff {addresses : List String} (hAddresses : scan.addresses = .ok addresses)
    {address : String} :
    address ∈ addresses ↔ ∃ branch, ∃ preview ∈ scan.scanned branch, preview.address = address := by
  unfold HdAccountScan.addresses at hAddresses
  split at hAddresses
  · cases hAddresses
  · cases hAddresses
    simp [List.mem_flatMap]

/- Leaving out repetitions leaves out nothing else. -/
theorem mem_eraseReps_loop {α : Type} [BEq α] [LawfulBEq α] {a b : α} {rest kept : List α} :
    b ∈ List.eraseRepsBy.loop (fun x y => x == y) a rest kept ↔ b = a ∨ b ∈ rest ∨ b ∈ kept := by
  induction rest generalizing a kept with
  | nil =>
    unfold List.eraseRepsBy.loop
    simp [or_comm]
  | cons next rest ih =>
    unfold List.eraseRepsBy.loop
    split
    · rename_i hSame
      rw [ih, ← eq_of_beq hSame, List.mem_cons]
      tauto
    · rw [ih, List.mem_cons, List.mem_cons]
      tauto

theorem mem_eraseReps {α : Type} [BEq α] [LawfulBEq α] {b : α} {list : List α} :
    b ∈ list.eraseReps ↔ b ∈ list := by
  unfold List.eraseReps List.eraseRepsBy
  cases list with
  | nil => rfl
  | cons a rest =>
    dsimp only
    rw [mem_eraseReps_loop, List.mem_cons]
    simp

/- A scan asks for the scripts that it watches. -/
theorem mem_interests_iff {interests : List WalletInterest}
    (hInterests : scan.interests codecs = .ok interests) {interest : WalletInterest} :
    interest ∈ interests ↔ ∃ script, interest = .script script ∧ scan.Watches codecs script := by
  unfold HdAccountScan.interests at hInterests
  rcases bind_eq_ok_iff.mp hInterests with ⟨addresses, hAddresses, hInterests⟩
  rcases bind_eq_ok_iff.mp hInterests with ⟨scripts, hScripts, hInterests⟩
  cases hInterests
  have hMem : ∀ script,
      script ∈ (scripts.insertionSort (fun a b => a ≤ b)).eraseReps ↔
        scan.Watches codecs script := by
    intro script
    rw [mem_eraseReps, List.mem_insertionSort, mem_of_mapM hScripts]
    constructor
    · rintro ⟨address, hAddress, hScript⟩
      rcases (mem_addresses_iff hAddresses).mp hAddress with ⟨branch, preview, hPreview, rfl⟩
      refine ⟨branch, preview, hPreview, ?_⟩
      split at hScript
      · rename_i parsed hDecode
        cases hScript
        exact ⟨parsed, hDecode, rfl⟩
      · cases hScript
    · rintro ⟨branch, preview, hPreview, parsed, hDecode, rfl⟩
      refine ⟨preview.address, ?_, ?_⟩
      · exact (mem_addresses_iff hAddresses).mpr ⟨branch, preview, hPreview, rfl⟩
      · rw [hDecode]
  rw [List.mem_map]
  constructor
  · rintro ⟨script, hScript, rfl⟩
    exact ⟨script, rfl, (hMem script).mp hScript⟩
  · rintro ⟨script, rfl, hScript⟩
    exact ⟨script, (hMem script).mpr hScript, rfl⟩

/- A round watches on what was watched. -/
theorem Watches.advance {script : List UInt8} (hWatches : scan.Watches codecs script)
    (hSound : Sound scan) (snapshot : WalletNetworkSnapshot) :
    (scan.advance codecs snapshot).1.Watches codecs script := by
  rcases hWatches with ⟨branch, preview, hPreview, hScript⟩
  refine ⟨branch, preview, ?_, hScript⟩
  have hGrows := (advance_answers codecs hSound snapshot).1
  have hPrefix : scan.scanned branch <+: (scan.advance codecs snapshot).1.scanned branch := by
    unfold scanned
    rw [List.prefix_take_iff]
    constructor
    · exact (List.take_prefix _ _).trans (advance_appends codecs scan snapshot branch)
    · exact (List.length_take_le _ _).trans (hGrows.horizon branch)
  exact hPrefix.subset hPreview

end OptnWallet.HdAccountScan
