import OptnWallet.Core.Cashaddr
import OptnWallet.Core.Coins.Operations

/-
  Pledges to assurance campaigns: a coin of exactly the amount is held for a pledge until the
  pledge is cancelled.

  Main declarations:
    * `Flipstarter.decodeCampaignBlob`
    * `PledgedCoins.preparePledge`
    * `PledgedCoins.cancelPledge`
-/

--- Campaigns

namespace OptnWallet

structure CampaignOutput where
  valueSats : UInt64
  address : String
deriving DecidableEq

structure Campaign where
  outputs : List CampaignOutput
  donationSats : UInt64
  aliasName : Option String
  comment : Option String
  expires : Option UInt64
deriving DecidableEq

inductive PledgeStatus where
  | frozen
  | cancelled (spendToSelf : Bool)
deriving DecidableEq

structure FlipstarterPledge where
  id : UInt32
  outpoint : Outpoint
  amountSats : UInt64
  aliasName : Option String
  comment : Option String
  campaignExpires : Option UInt64
  outputs : List CampaignOutput
  status : PledgeStatus
deriving DecidableEq

/- What the text of a campaign says. -/
structure RawCampaign where
  outputs : List (UInt64 × String)
  aliasName : Option String
  comment : Option String
  donationAmount : UInt64
  expires : Option UInt64

inductive FlipstarterError where
  | emptyBlob
  | invalidBase64
  | invalidUtf16
  | invalidJson (message : String)
  | missingOutputs
  | zeroDonation
  | zeroOutput
  | networkMismatch (address : String) (expected : Network)
  | invalidAddress (address : String)
  | expired
  | noExactCoin (amountSats : UInt64)
  | coin (error : CoinError)
  | unknownPledge
  | pledgeNotFrozen
deriving DecidableEq

def FlipstarterError.toString : FlipstarterError → String
  | emptyBlob => "paste the Flipstarter campaign details first"
  | invalidBase64 => "campaign details are not valid base64"
  | invalidUtf16 => "campaign details are not UTF-16LE JSON"
  | invalidJson message => "campaign JSON is invalid: " ++ message
  | missingOutputs => "campaign has no outputs"
  | zeroDonation => "pledge amount must be greater than zero"
  | zeroOutput => "campaign output value must be greater than zero"
  | networkMismatch address expected =>
    "campaign address " ++ address ++ " is not a " ++ expected.toString ++ " address"
  | invalidAddress address => "invalid campaign address " ++ address
  | expired => "this campaign has expired"
  | noExactCoin amountSats => "need a spendable coin of exactly " ++ ToString.toString amountSats ++
      " sats (create a self-send first)"
  | coin error => error.toString
  | unknownPledge => "unknown Flipstarter pledge"
  | pledgeNotFrozen => "that pledge is not frozen"

/-
  What campaigns are decoded with: Unicode data, and two decoders that come from dependencies.
-/
structure CampaignCodecs where
  tables : UnicodeTables
  decodeBase64 : List UInt8 → Option (List UInt8)
  parseJson : String → Except String RawCampaign

namespace Flipstarter

/- What a decoder of campaigns answers. -/
abbrev Result (α : Type) := Except (Fault FlipstarterError) α

def nonempty (value : Option String) : Option String :=
  value.bind
    (fun text =>
      let trimmed := Text.trim text
      if trimmed = "" then none else some trimmed)

/- `u16::from_le_bytes` of each pair. -/
def unitsOf : List UInt8 → List Nat
  | low :: high :: rest => (low.toNat + 256 * high.toNat) :: unitsOf rest
  | _ => []

def isSurrogate (unit : Nat) : Bool := 0xd800 ≤ unit ∧ unit ≤ 0xdfff

/- `String::from_utf16`.  A high unit stands before a low one, and neither of them alone. -/
def fromUtf16 : List Nat → Option (List Char)
  | [] => some []
  | [unit] => if isSurrogate unit then none else some [Char.ofNat unit]
  | unit :: next :: rest =>
    if !isSurrogate unit then (fromUtf16 (next :: rest)).map (List.cons (Char.ofNat unit))
    else if unit < 0xdc00 ∧ 0xdc00 ≤ next ∧ next ≤ 0xdfff then (fromUtf16 rest).map
        (List.cons (Char.ofNat (0x10000 + (unit - 0xd800) * 0x400 + (next - 0xdc00))))
    else none

def utf16leToString (bytes : List UInt8) : Result String :=
  let data :=
    if bytes.take 2 = [0xff, 0xfe] then bytes.drop 2 else bytes
  if data.length % 2 ≠ 0 then .error (.error .invalidUtf16)
  else
    match fromUtf16 (unitsOf data) with
    | some text => .ok (String.ofList text)
    | none => .error (.error .invalidUtf16)

/- An output pays a positive amount to an address of the network, which is written anew. -/
def campaignOutput (tables : UnicodeTables) (network : Network) (output : UInt64 × String) :
    Result CampaignOutput :=
  if output.1 = 0 then .error (.error .zeroOutput)
  else
    match Address.decode tables output.2 with
    | .error .panic => .error .panic
    | .error (.error _) => .error (.error (.invalidAddress output.2))
    | .ok address =>
      if address.addressPrefix ≠ network.addressPrefix then
        .error (.error (.networkMismatch output.2 network))
      else
        match address.encode with
        | none => .error .panic
        | some text => .ok { valueSats := output.1, address := text }

def campaignOf (tables : UnicodeTables) (network : Network) (raw : RawCampaign) : Result Campaign :=
  if raw.outputs = [] then .error (.error .missingOutputs)
  else if raw.donationAmount = 0 then .error (.error .zeroDonation)
  else do
    let outputs ← raw.outputs.mapM (campaignOutput tables network)
    .ok
      { outputs
        donationSats := raw.donationAmount
        aliasName := nonempty raw.aliasName
        comment := nonempty raw.comment
        expires := raw.expires }

def decodeCampaignBlob (codecs : CampaignCodecs) (blob : String) (network : Network) :
    Result Campaign :=
  let trimmed := Text.trim blob
  if trimmed = "" then .error (.error .emptyBlob)
  else
    match codecs.decodeBase64 (Cashaddr.utf8 trimmed.toList)
    with
    | none => .error (.error .invalidBase64)
    | some bytes => do
        let json ← utf16leToString bytes
        match codecs.parseJson json with
        | .error message => .error (.error (.invalidJson message))
        | .ok raw => campaignOf codecs.tables network raw

end Flipstarter

--- Pledges

/- The two stores that pledges are kept in. -/
structure PledgedCoins where
  coins : CoinSet
  pledges : List FlipstarterPledge
deriving DecidableEq

namespace PledgedCoins

open Flipstarter

def empty : PledgedCoins := { coins := CoinSet.new, pledges := [] }

/- One more than the highest; a release build wraps. -/
def nextId (pledges : List FlipstarterPledge) : UInt32 :=
  ((pledges.map FlipstarterPledge.id).max?).getD 0 + 1

def isExpired (expires now : Option UInt64) : Bool :=
  match expires, now with
  | some expires, some now => expires ≤ now
  | _, _ => false

section

variable (self : PledgedCoins) (campaign : Campaign) (coin : Coin)

def newPledge : FlipstarterPledge :=
  { id := nextId self.pledges
    outpoint := coin.outpoint
    amountSats := campaign.donationSats
    aliasName := campaign.aliasName
    comment := campaign.comment
    campaignExpires := campaign.expires
    outputs := campaign.outputs
    status := .frozen }

/- A coin that was found for a campaign is held for it. -/
def pledgeCoin : Result UInt32 × PledgedCoins :=
  let frozen := self.coins.freeze coin.outpoint .flipstarterPledge
  match frozen.1 with
  | .error e => (.error (.error (.coin e)), { self with coins := frozen.2 })
  | .ok () => (.ok (nextId self.pledges),
      { coins := frozen.2, pledges := self.pledges ++ [self.newPledge campaign coin] })

end

def preparePledge (codecs : CampaignCodecs) (self : PledgedCoins) (network : Network)
    (blob : String) (nowUnix : Option UInt64) : Result UInt32 × PledgedCoins :=
  match decodeCampaignBlob codecs blob network with
  | .error failure => (.error failure, self)
  | .ok campaign =>
    if isExpired campaign.expires nowUnix then (.error (.error .expired), self)
    else
      match self.coins.findExactSpendable campaign.donationSats
      with
      | none => (.error (.error (.noExactCoin campaign.donationSats)), self)
      | some coin => self.pledgeCoin campaign coin

/- The status of a pledge once its coin was released. -/
def markCancelled (pledge : FlipstarterPledge) : Unit × FlipstarterPledge :=
  ((), { pledge with status := .cancelled true })

def cancelPledge (self : PledgedCoins) (pledgeId : UInt32) : Result Outpoint × PledgedCoins :=
  match KeyedList.find FlipstarterPledge.id pledgeId self.pledges
  with
  | none => (.error (.error .unknownPledge), self)
  | some pledge =>
    if pledge.status ≠ .frozen then (.error (.error .pledgeNotFrozen), self)
    else
      let released := self.coins.unfreeze pledge.outpoint
      match released.1 with
      | .error e => (.error (.error (.coin e)), { self with coins := released.2 })
      | .ok _ => (.ok pledge.outpoint,
          { coins := released.2
            pledges :=
              (KeyedList.modify FlipstarterPledge.id pledgeId markCancelled self.pledges).2 })

end PledgedCoins

end OptnWallet
