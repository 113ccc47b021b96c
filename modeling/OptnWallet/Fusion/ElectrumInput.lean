import OptnWallet.Fusion.Ownership

/-
  Lookups of inputs at the servers that a wallet configured: one input on a connection of its own,
  or all of them on one connection, where answers are matched by their ids.

  Main declarations:
    * `ElectrumInput.parseListunspentResponse`
    * `ElectrumInput.verifyInput`
    * `ElectrumInput.batchVerifyInputs`
    * `ElectrumInput.revalidateOwnInputs`
-/

--- Answers

namespace OptnWallet.Fusion

namespace ElectrumInput

def maxResponseBytes : Nat := 256 * 1024

def maxListUnspentEntries : Nat := 1024

inductive InputLookup where
  | matched
  | mismatch (reason : String)
deriving DecidableEq

/- A field of an answer that may be left out. -/
inductive RpcMember (α : Type) where
  | missing
  | present (value : α)
deriving DecidableEq

structure RpcError where
  code : Int
  message : String
deriving DecidableEq

structure ListUnspentItem where
  txHash : String
  txPos : UInt32
  height : Int
  value : UInt64
deriving DecidableEq

structure ListUnspentResponse where
  jsonrpc : RpcMember String
  id : Nat
  result : RpcMember (List ListUnspentItem)
  error : RpcMember RpcError
deriving DecidableEq

def displayTxid (input : InputComponent) : Except String String :=
  if input.prevTxid.length ≠ 32 then .error "peer input prev_txid must be exactly 32 bytes"
  else .ok (Text.hexEncode input.prevTxid.reverse)

def isCanonicalDisplayTxid (txid : String) : Bool :=
  let digits := Cashaddr.utf8 txid.toList
  digits.length = 64 &&
    digits.all (fun byte => (0x30 ≤ byte && byte ≤ 0x39) || (0x61 ≤ byte && byte ≤ 0x66))

def checkVersion (jsonrpc : RpcMember String) : Except String Unit :=
  match jsonrpc with
  | .missing => .ok ()
  | .present version =>
    if version = "2.0" then .ok ()
    else .error ("unsupported Electrum JSON-RPC version: " ++ version)

def ListUnspentResponse.items (response : ListUnspentResponse) :
    Except String (List ListUnspentItem) :=
  match response.result, response.error with
  | .present items, .missing => .ok items
  | .missing, .present error =>
    .error ("Electrum RPC error " ++ toString error.code ++ ": " ++ error.message)
  | .present _, .present _ => .error "ambiguous Electrum response contains result and error"
  | .missing, .missing => .error "Electrum response contains neither result nor error"

/- Every item has its own outpoint. -/
def checkItems (seen : List (String × UInt32)) : List ListUnspentItem → Except String Unit
  | [] => .ok ()
  | item :: items =>
    if isCanonicalDisplayTxid item.txHash = false then
      .error "Electrum listunspent returned a non-canonical tx_hash"
    else if seen.contains (item.txHash, item.txPos) then
      .error "Electrum listunspent returned a duplicate outpoint"
    else checkItems ((item.txHash, item.txPos) :: seen) items

/- The height is not looked at. -/
def parseListunspentResponse (response : ListUnspentResponse) (displayTxid : String)
    (input : InputComponent) : Except String InputLookup := do
  checkVersion response.jsonrpc
  let items ← response.items
  if maxListUnspentEntries < items.length then
    .error
      ("Electrum listunspent result has too many entries (maximum " ++
        toString maxListUnspentEntries ++ ")")
  else checkItems [] items
    match items.find? (fun item => item.txHash = displayTxid && item.txPos = input.prevIndex)
    with
    | none => .ok (.mismatch "claimed outpoint is not unspent for the peer pubkey")
    | some item =>
      if item.value ≠ input.amount then
        .ok
          (.mismatch
            ("claimed value " ++ toString input.amount ++ " does not match Electrum value " ++
              toString item.value))
      else .ok .matched

--- Connections

/- What is read next: a byte, the end, an error, or nothing before the time is over. -/
inductive ReadEvent where
  | byte (value : UInt8)
  | closed
  | failed (message : String)
  | elapsed

/- One connection to a server.  There is nothing where a step never ends. -/
structure Session where
  connect : Option (Except String Unit)
  write : List UInt8 → Option (Except String Unit)
  read : Nat → ReadEvent

structure ElectrumEndpoint where
  host : String
  port : UInt16
  useSsl : Bool

/- A server with the connection that all inputs share, and one for each of the inputs. -/
structure Configured where
  endpoint : ElectrumEndpoint
  batch : Session
  single : Nat → Session

/- The curve, the digests and the reader of answers. -/
structure Dependencies (Point : Type) where
  parsePoint : List UInt8 → Except String Point
  sha256 : List UInt8 → Vector UInt8 32
  ripemd160 : List UInt8 → Vector UInt8 20
  parseResponse : List UInt8 → Except String ListUnspentResponse

variable {Point : Type} (deps : Dependencies Point)

def electrumScripthash (pubkey : List UInt8) : Except String String := do
  if pubkey.length ≠ 33 ∨ (pubkey.head? ≠ some 0x02 ∧ pubkey.head? ≠ some 0x03)
  then .error "peer input pubkey must be compressed (33 bytes)"
  else
    let _ ← (deps.parsePoint pubkey).mapError
        (fun _ => "peer input pubkey is not a valid compressed secp256k1 key")
    let pubkeyHash := deps.ripemd160 (deps.sha256 pubkey).toList
    let script := [0x76, 0xa9, 0x14] ++ pubkeyHash.toList ++ [0x88, 0xac]
    .ok (Text.hexEncode (deps.sha256 script).toList.reverse)

/- The request as a line of JSON. -/
def listUnspentRequest (id : Nat) (scripthash : String) : List UInt8 :=
  Cashaddr.utf8
    ("\x7b\x22id\x22:" ++ toString id ++
      ",\x22method\x22:\x22blockchain.scripthash.listunspent\x22" ++
        ",\x22params\x22:[\x22" ++ scripthash ++ "\x22]\x7d\n").toList

def responseTooLarge : String :=
  "Electrum response too large (maximum " ++ toString maxResponseBytes ++ " bytes)"

def checkLine (response : List UInt8) : Except String Unit :=
  if maxResponseBytes < response.length then .error responseTooLarge
  else if response.getLast? ≠ some 0x0a then .error "Electrum response ended before newline"
  else .ok ()

def parseLine (response : List UInt8) : Except String ListUnspentResponse := do
  checkLine response
  (deps.parseResponse response).mapError (fun e => "invalid Electrum JSON-RPC response: " ++ e)

--- One Input

/- The bytes through the first line feed, of so many at most. A connection that is closed ends them
   too. -/
def readUntil (read : Nat → ReadEvent) :
    Nat → Nat → List UInt8 → Option (Except String (List UInt8))
  | 0, _, response => some (.ok response)
  | room + 1, position, response =>
    match read position with
    | .elapsed => none
    | .failed message => some (.error ("Electrum response read failed: " ++ message))
    | .closed => some (.ok response)
    | .byte value =>
      if value = 0x0a then some (.ok (response ++ [value]))
      else readUntil read room (position + 1) (response ++ [value])

def readResponse (session : Session) : Option (Except String (List UInt8)) :=
  readUntil session.read (maxResponseBytes + 1) 0 []

/- The one answer there must be, with the id of the request. -/
def judgeLine (requestId : Nat) (input : InputComponent) (line : List UInt8) :
    Except String (Nat × InputLookup) := do
  let parsed ← parseLine deps line
  if parsed.id ≠ requestId then
    .error
      ("Electrum response id " ++ toString parsed.id ++ " did not match request id " ++
        toString requestId)
  else
    let txid ← displayTxid input
    let lookup ← parseListunspentResponse parsed txid input
    .ok (parsed.id, lookup)

variable (session : Session)

def exchange (requestId : Nat) (input : InputComponent) :
    Option (Except String (Nat × InputLookup)) :=
  match electrumScripthash deps input.pubkey with
  | .error e => some (.error e)
  | .ok scripthash =>
    match session.write (listUnspentRequest requestId scripthash)
    with
    | none => none
    | some (.error e) => some (.error ("Electrum request write failed: " ++ e))
    | some (.ok ()) =>
      (readResponse session).map (fun response => response >>= judgeLine deps requestId input)

/- All of it has to be done in time. -/
def verifyInput (session : Session) (input : InputComponent) : Except String InputLookup :=
  let answer : Option (Except String (Nat × InputLookup)) :=
    match session.connect with
    | none => none
    | some (.error e) => some (.error e)
    | some (.ok ()) => exchange deps session 1 input
  match answer with
  | none => .error "Electrum peer-input lookup timed out"
  | some found => found.map Prod.snd

/- The first server that answers decides. -/
def verifyInputFrom (index : Nat) (input : InputComponent) :
    List Configured → String → Except String InputLookup
  | [], lastError => .error lastError
  | server :: servers, _ =>
    match verifyInput deps (server.single index) input with
    | .ok found => .ok found
    | .error error => verifyInputFrom index input servers
        (server.endpoint.host ++ ":" ++ toString server.endpoint.port ++ ": " ++ error)

def verifyInputAnywhere (servers : List Configured) (index : Nat) (input : InputComponent) :
    Except String InputLookup :=
  verifyInputFrom deps index input servers "no Electrum server is configured for input lookup"

--- All Inputs

/- A request that was not answered yet. -/
structure Awaited (count : Nat) where
  requestId : Nat
  index : Fin count
  scripthash : String

/- The requests are sent before anything is read. -/
def sendRequests (session : Session) (inputs : List InputComponent) :
    List (Fin inputs.length) → Option (Except String (List (Awaited inputs.length)))
  | [] => some (.ok [])
  | index :: indices =>
    match electrumScripthash deps (inputs.get index).pubkey with
    | .error e => some (.error e)
    | .ok scripthash =>
      match session.write (listUnspentRequest (index.val + 1) scripthash)
      with
      | none => none
      | some (.error e) => some (.error ("Electrum request write failed: " ++ e))
      | some (.ok ()) => (sendRequests session inputs indices).map
          (fun sent => sent.map
              (fun awaiting => { requestId := index.val + 1, index, scripthash } :: awaiting))

variable (inputs : List InputComponent)

def openBatch : Option (Except String (List (Awaited inputs.length))) :=
  match session.connect with
  | none => none
  | some (.error e) => some (.error e)
  | some (.ok ()) => sendRequests deps session inputs (List.finRange inputs.length)

/- A line, of so many bytes at most, and where it ends. -/
def readLine (read : Nat → ReadEvent) (room position : Nat) (response : List UInt8) :
    Except String (List UInt8 × Nat) :=
  match read position with
  | .elapsed => .error "Electrum batch response timed out"
  | .failed message => .error ("Electrum response read failed: " ++ message)
  | .closed => .error "Electrum connection closed before newline"
  | .byte value =>
    match room with
    | 0 => .error responseTooLarge
    | room + 1 =>
      if value = 0x0a then .ok (response ++ [value], position + 1)
      else readLine read room (position + 1) (response ++ [value])

def nextResponse (position : Nat) : Except String (ListUnspentResponse × Nat) := do
  let line ← readLine session.read maxResponseBytes position []
  let parsed ← parseLine deps line.1
  .ok (parsed, line.2)

structure BatchState (count : Nat) where
  position : Nat
  awaiting : List (Awaited count)
  results : Vector (Option (Except String InputLookup)) count
  remaining : Nat

/- One line of the server.  An id that nobody waits for is skipped. -/
def batchStep (state : BatchState inputs.length) : Except String (BatchState inputs.length) := do
  let next ← nextResponse deps session state.position
  match state.awaiting.find? (fun awaited => awaited.requestId = next.1.id)
  with
  | none => .ok { state with position := next.2 }
  | some awaited =>
    let input := inputs.get awaited.index
    let txid ← displayTxid input
    .ok
      { position := next.2
        awaiting := state.awaiting.filter (fun other => other.requestId ≠ next.1.id)
        results :=
          state.results.set awaited.index.val (some (parseListunspentResponse next.1 txid input))
        remaining := state.remaining - 1 }

/- So many lines at most are read. -/
def batchLoop (session : Session) (inputs : List InputComponent) :
    Nat → BatchState inputs.length → Option (Except String (BatchState inputs.length))
  | lines, state =>
    if state.remaining = 0 then some (.ok state)
    else
      match lines with
      | 0 => none
      | lines + 1 =>
        match batchStep deps session inputs state with
        | .error e => some (.error e)
        | .ok next => batchLoop session inputs lines next

def startBatch (count : Nat) (awaiting : List (Awaited count)) : BatchState count :=
  { position := 0, awaiting, results := Vector.replicate count none, remaining := count }

def BatchState.verdicts {count : Nat} (state : BatchState count) :
    List (Nat × Except String InputLookup) :=
  state.results.toList.zipIdx.filterMap (fun entry => entry.1.map (fun result => (entry.2, result)))

/- Nothing is returned while more lines are waited for. -/
def batchVerifyInputs (lines : Nat) :
    Option (Except String (List (Nat × Except String InputLookup))) :=
  match openBatch deps session inputs with
  | none => none
  | some (.error e) => some (.error e)
  | some (.ok awaiting) =>
    (batchLoop deps session inputs lines (startBatch inputs.length awaiting)).map
      (fun done => done.map BatchState.verdicts)

--- Own Inputs

def componentOf (input : FusionInputKey) : Except String InputComponent := do
  let prevTxid ← displayTxidToWire input.prevTxid
  .ok
    { prevTxid := prevTxid.toList
      prevIndex := input.prevIndex
      pubkey := input.pubkey
      amount := input.value }

/- Only a match lets the wallet go on. -/
def requireMatch (boundary : String) (lookup : Except String InputLookup) : Except String Unit :=
  match lookup with
  | .ok .matched => .ok ()
  | .ok (.mismatch reason) =>
    .error ("wallet input is stale or spent before " ++ boundary ++ ": " ++ reason)
  | .error error =>
    .error ("could not safely revalidate wallet inputs before " ++ boundary ++ ": " ++ error)

/- Every input on connections of its own. -/
def revalidateEach (servers : List Configured) (components : List InputComponent)
    (boundary : String) : Except String Unit :=
  components.zipIdx.forM
    (fun entry => requireMatch boundary (verifyInputAnywhere deps servers entry.2 entry.1))

/- The first server whose batch succeeds decides, and where none does every input is looked up. -/
def revalidateFrom (components : List InputComponent) (boundary : String) (lines : Nat)
    (fallback : Except String Unit) : List Configured → Option (Except String Unit)
  | [] => some fallback
  | server :: servers =>
    match batchVerifyInputs deps server.batch components lines
    with
    | none => none
    | some (.ok results) => some (results.forM (fun result => requireMatch boundary result.2))
    | some (.error _) => revalidateFrom components boundary lines fallback servers

def revalidateOwnInputs (inputs : List FusionInputKey) (servers : List Configured)
    (boundary : String) (lines : Nat) : Option (Except String Unit) :=
  match inputs.mapM componentOf with
  | .error e => some (.error e)
  | .ok components =>
    revalidateFrom deps components boundary lines (revalidateEach deps servers components boundary)
      servers

end ElectrumInput

end OptnWallet.Fusion
