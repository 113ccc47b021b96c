import Mathlib.Init

/-
  The networks a wallet can be on.
-/

namespace OptnWallet

inductive Network where
  | mainnet
  | chipnet
  | regtest
deriving DecidableEq

namespace Network

/- The name a network is displayed and stored under. -/
def toString : Network → String
  | mainnet => "mainnet"
  | chipnet => "chipnet"
  | regtest => "regtest"

/- What the addresses of a network start with. -/
def addressPrefix : Network → String
  | mainnet => "bitcoincash"
  | chipnet => "bchtest"
  | regtest => "bchreg"

end Network

end OptnWallet
