import FabricSequencer.BlockData
import FabricSequencer.KeyLevelEndorsement

/-!
# The validation workers of a block

`TxValidator.Validate` starts one worker for each transaction of a block, as
many at a time as the semaphore allows.  A worker checks the form of its
transaction and lets the built-in plugin validate every namespace that it
writes, in the order of a Go map.  The plugin extracts the dependencies of all
transactions up to its own, each once for the block, and then waits for what
the transactions before have set.

The events of a run choose who moves, and which element a map iteration returns
next.  Extracting the dependencies of one transaction and one turn of a loop
are single steps, since nothing in them waits.  The signatures, the policies,
the ledger and the decoders of the messages are given.
-/

namespace FabricSequencer.TxValidator

open Protoutil Framing Statebased

structure Endorsement where
  endorser : Bytes
  signature : Bytes

structure SignedData where
  data : Bytes
  identity : Bytes
  signature : Bytes
deriving DecidableEq

structure ChaincodeEndorsedAction where
  proposalResponsePayload : Option Bytes
  endorsements : List Endorsement

structure ChaincodeID where
  name : GoString
  version : GoString

/-- The part of a `ChaincodeAction` that is read here. -/
structure ChaincodeAction where
  results : Bytes
  events : Option Bytes
  chaincodeId : Option ChaincodeID

structure Codec where
  channelHeaderExtension : Bytes → Bytes
  unmarshalChaincodeHeaderExtension : Bytes → Except String (Option GoString)
  unmarshalTransaction : Bytes → Except String (List Bytes)
  unmarshalChaincodeActionPayload : Bytes → Except String (Option ChaincodeEndorsedAction)
  unmarshalProposalResponsePayload : Bytes → Except String (Option Bytes)
  unmarshalChaincodeAction : Bytes → Except String ChaincodeAction
  unmarshalChaincodeEvent : Bytes → Except String GoString
  txRwSetFromProtoBytes : Bytes → Except String TxRwSet

/-- The values of `TxValidationCode` that are set here; `other` stands for the
remaining ones of `ValidateTransaction`. -/
inductive Flag where
  | notValidated
  | valid
  | badPayload
  | badCommonHeader
  | badChannelHeader
  | badHeaderExtension
  | badResponsePayload
  | badRwset
  | illegalWriteset
  | invalidChaincode
  | endorsementPolicyFailure
  | targetChainNotFound
  | unknownTxType
  | marshalTxError
  | duplicateTxid
  | invalidOtherReason
  | other (code : ℕ)
deriving DecidableEq

inductive InfoError where
  | lookupFailure (text : String)
  | invalid (text : String)
  | unusablePlugin (text : String)

structure Validator where
  codec : Codec
  support : Support SignedData
  blockNumber : ℕ
  checkTransaction : Envelope → Header → Bytes → Option Flag
  chainExists : GoString → Bool
  txIDExists : GoString → Except String Bool
  applyConfig : Bytes → Except String Unit
  marshal : Envelope → Except String Unit
  getInfoForValidate : GoString → Except InfoError Bytes

/-- `blockValidationResult`. -/
inductive TxResult where
  | flag (code : Flag) (txid : GoString)
  | err (text : String)
deriving DecidableEq

variable (v : Validator)

def getActionFromEnvelope (envBytes : Bytes) : Outcome ChaincodeAction := do
  let env ← unmarshalled "Envelope" (unmarshal envBytes)
  let payload ← unmarshalled "Payload" (unmarshalPayload env.payload)
  let actions ← Outcome.returned (v.codec.unmarshalTransaction payload.data)
  match actions with
  | [] => .error (.error "at least one TransactionAction required")
  | action :: _ =>
    let cap ← Outcome.returned (v.codec.unmarshalChaincodeActionPayload action)
    match cap with
    | some ⟨some response, _⟩ =>
      let extension ← Outcome.returned (v.codec.unmarshalProposalResponsePayload response)
      match extension with
      | none => .error (.error "response payload is missing extension")
      | some extension => Outcome.returned (v.codec.unmarshalChaincodeAction extension)
    | _ => .error (.error "no payload in ChaincodeActionPayload")

def nilPointer : Failure := .panic "invalid memory address or nil pointer dereference"

def indexOutOfRange : Failure := .panic "index out of range [0] with length 0"

/-- `extractDependenciesForTx` and `ExtractValidationParameterDependency`.  An
error means that the function returns early and signals nothing. -/
def extractDependenciesForTx (envelopeBytes : Bytes) : Outcome (List LedgerKeyID) := do
  let env ← unmarshalled "Envelope" (unmarshal envelopeBytes)
  let payl ← unmarshalled "Payload" (unmarshalPayload env.payload)
  let actions ← Outcome.returned (v.codec.unmarshalTransaction payl.data)
  match actions with
  | [] => .error indexOutOfRange
  | action :: _ =>
    let cap ← Outcome.returned (v.codec.unmarshalChaincodeActionPayload action)
    match cap with
    | none => .error nilPointer
    | some endorsed =>
      let extension ← Outcome.returned
        (v.codec.unmarshalProposalResponsePayload (endorsed.proposalResponsePayload.getD []))
      let respPayload ← Outcome.returned (v.codec.unmarshalChaincodeAction (extension.getD []))
      match v.codec.txRwSetFromProtoBytes respPayload.results with
      | .error _ => .ok []
      | .ok rwset => .ok (metadataKeys rwset)

structure ValidationArtifacts where
  rwset : Bytes
  prp : Bytes
  endorsements : List Endorsement

def endorserTransaction : ℤ := 3

def extractValidationArtifacts (envBytes : Bytes) : Outcome ValidationArtifacts := do
  let env ← unmarshalled "Envelope" (unmarshal envBytes)
  let payl ← unmarshalled "Payload" (unmarshalPayload env.payload)
  match payl.header with
  | none => .error nilPointer
  | some header =>
    let chdr ← unmarshalled "ChannelHeader" (unmarshalChannelHeader (header.channelHeader.getD []))
    if chdr.type ≠ endorserTransaction then
      .error (.error ("Only Endorser Transactions are supported, " ++
        "provided type " ++ toString chdr.type))
    else
      let actions ← Outcome.returned (v.codec.unmarshalTransaction payl.data)
      match actions with
      | [] => .error indexOutOfRange
      | action :: _ =>
        let cap ← Outcome.returned (v.codec.unmarshalChaincodeActionPayload action)
        match cap with
        | none => .error nilPointer
        | some endorsed =>
          let prp := endorsed.proposalResponsePayload.getD []
          let extension ← Outcome.returned (v.codec.unmarshalProposalResponsePayload prp)
          match extension with
          | none => .error (.error "nil pRespPayload.Extension")
          | some extension =>
            let respPayload ← Outcome.returned (v.codec.unmarshalChaincodeAction extension)
            .ok { rwset := respPayload.results
                  prp := prp
                  endorsements := endorsed.endorsements }

/-- The signature set of `KeyLevelValidator.Validate`. -/
def signatureSet (prp : Bytes) (endorsements : List Endorsement) : List SignedData :=
  endorsements.map fun endorsement =>
    { data := prp ++ endorsement.endorser
      identity := endorsement.endorser
      signature := endorsement.signature }

/-- `ValidateTransaction`, up to the checks that depend on signatures and on
the type of the transaction. -/
def validateTransaction (env : Envelope) : Except Flag (Header × Bytes) :=
  match unmarshalPayload env.payload with
  | .error _ => .error .badPayload
  | .ok payload =>
    match payload.header with
    | none => .error .badCommonHeader
    | some header =>
      match v.checkTransaction env header payload.data with
      | some code => .error code
      | none => .ok (header, payload.data)

def txWritesToNamespace (ns : NsRwSet) : Bool :=
  ns.kvRwSet.writes.length > 0 || ns.collHashedRwSets.any (fun c =>
      c.hashedRwSet.hashedWrites.length > 0 || c.hashedRwSet.metadataWrites.length > 0) ||
    ns.kvRwSet.metadataWrites.length > 0

/-- `Dispatch` up to its last loop: the namespaces that it goes through. -/
def wrNamespaces (header : Header) (envBytes : Bytes) : Except Flag (List GoString) :=
  let chdrBytes := header.channelHeader.getD []
  match unmarshalChannelHeader chdrBytes with
  | .error _ => .error .badChannelHeader
  | .ok _ =>
  match v.codec.unmarshalChaincodeHeaderExtension (v.codec.channelHeaderExtension chdrBytes) with
  | .error _ => .error .badHeaderExtension
  | .ok hdrExt =>
  match getActionFromEnvelope v envBytes with
  | .error _ => .error .badResponsePayload
  | .ok respPayload =>
  match v.codec.txRwSetFromProtoBytes respPayload.results with
  | .error _ => .error .badRwset
  | .ok txRWSet =>
  match hdrExt, respPayload.chaincodeId with
  | none, _ => .error .invalidOtherReason
  | some _, none => .error .invalidOtherReason
  | some ccID, some chaincodeId =>
    if ccID = [] then .error .invalidChaincode
    else if ccID ≠ chaincodeId.name then .error .invalidChaincode
    else if chaincodeId.version = [] then .error .invalidChaincode
    else
      match respPayload.events.map v.codec.unmarshalChaincodeEvent with
      | some (.error _) => .error .invalidOtherReason
      | some (.ok eventCC) =>
        if eventCC ≠ ccID then .error .invalidOtherReason
        else visited ccID txRWSet
      | none => visited ccID txRWSet
where
  visited (ccID : GoString) (txRWSet : TxRwSet) : Except Flag (List GoString) :=
    if (txRWSet.nsRwSets.map NsRwSet.nameSpace).Nodup then
      .ok (ccID :: (txRWSet.nsRwSets.filter txWritesToNamespace).map NsRwSet.nameSpace).dedup
    else .error .illegalWriteset

inductive Entry where
  | finished (result : TxResult)
  | dispatched (txID : GoString) (env : Envelope) (namespaces : List GoString)

/-- The end of `validateTx`. -/
def lastResult (env : Envelope) (txID : GoString) : TxResult :=
  match v.marshal env with
  | .error _ => .flag .marshalTxError []
  | .ok () => .flag .valid txID

/-- `validateTx` up to the plugins. -/
def validateTx (d : Bytes) : Entry :=
  match unmarshal d with
  | .error _ => .finished (.flag .invalidOtherReason [])
  | .ok env =>
  match validateTransaction v env with
  | .error code => .finished (.flag code [])
  | .ok (header, data) =>
  match unmarshalChannelHeader (header.channelHeader.getD []) with
  | .error _ => .finished (.flag .invalidOtherReason [])
  | .ok chdr =>
    if !v.chainExists chdr.channelId then
      .finished (.flag .targetChainNotFound [])
    else if chdr.type = endorserTransaction then
      match v.txIDExists chdr.txId with
      | .error text => .finished (.err text)
      | .ok true => .finished (.flag .duplicateTxid [])
      | .ok false =>
        match wrNamespaces v header d with
        | .error code => .finished (.flag code [])
        | .ok namespaces => .dispatched chdr.txId env namespaces
    else if chdr.type = headerTypeConfig then
      match v.applyConfig data with
      | .error text =>
        .finished (.err ("error validating config which passed initial " ++
          "validity checks: " ++ text))
      | .ok () => .finished (lastResult v env [])
    else .finished (.flag .unknownTxType [])

/-! ## The workers -/

structure Job where
  ns : GoString
  rest : List GoString
  ccEP : Bytes
  sd : List SignedData
deriving DecidableEq

inductive Stage where
  /-- not started -/
  | waiting
  /-- in the loop of `Dispatch`, with the namespaces that are left -/
  | choosing (rest : List GoString)
  /-- in the loop of `PreValidate`, with the transactions below `count` left -/
  | preparing (ns : GoString) (rest : List GoString) (ccEP : Bytes) (count : ℕ)
  /-- in the loop of `Evaluate` -/
  | evaluating (job : Job) (keys : List LedgerKeyID) (checker : PolicyCheckerV20)
  /-- in the loop of `waitForValidationResults`, for the first of the keys -/
  | awaiting (job : Job) (key : LedgerKeyID) (deps : List ℕ)
      (keys : List LedgerKeyID) (checker : PolicyCheckerV20)
  /-- in `waitForAndRetrieveValidationResult` of one transaction -/
  | blocked (job : Job) (key : LedgerKeyID) (dep : ℕ) (deps : List ℕ)
      (keys : List LedgerKeyID) (checker : PolicyCheckerV20)
  | done (result : TxResult)
deriving DecidableEq

/-- The result that `PostValidate` records for a namespace. -/
abbrev NsResult := Except TxValidationError Unit

structure State where
  started : ℕ
  stage : ℕ → Stage
  extracted : ℕ → Bool
  inserted : ℕ → Bool
  depsByLedgerKeyID : List (LedgerKeyID × ℕ)
  results : ℕ → GoString → Option NsResult
  crashed : Bool

def State.initial : State where
  started := 0
  stage _ := .waiting
  extracted _ := false
  inserted _ := false
  depsByLedgerKeyID := []
  results _ _ := none
  crashed := false

def State.setStage (state : State) (i : ℕ) (stage : Stage) : State :=
  { state with stage := Function.update state.stage i stage }

def failedResult : TxValidationError → TxResult
  | .endorsementPolicy _ => .flag .endorsementPolicyFailure []
  | .executionFailure text => .err text

def infoResult : InfoError → TxResult
  | .lookupFailure text => .err text
  | .invalid _ => .flag .invalidChaincode []
  | .unusablePlugin text => .err text

/-- `PostValidate` and the return to `Dispatch`. -/
def State.post (state : State) (i : ℕ) (ns : GoString) (rest : List GoString)
    (result : NsResult) : State :=
  { state with
    results := Function.update state.results i (Function.update (state.results i) ns (some result))
    stage := Function.update state.stage i (match result with
        | .error err => .done (failedResult err)
        | .ok () => .choosing rest) }

def State.dependenciesForTxnum (state : State) (key : LedgerKeyID) (i : ℕ) : List ℕ :=
  ((state.depsByLedgerKeyID.filter fun dep =>
    dep.1 = key ∧ dep.2 < i).map Prod.snd).dedup

section Steps

variable (block : List Bytes)

def txBytes (i : ℕ) : Bytes := block.getD i []

/-- One `sync.Once` of `PreValidate`. -/
def State.extract (state : State) (j : ℕ) : State :=
  if state.extracted j then state
  else
    match extractDependenciesForTx v (txBytes block j) with
    | .error (.panic _) => { state with crashed := true }
    | .error (.error _) =>
      { state with extracted := Function.update state.extracted j true }
    | .ok keys =>
      { state with
        extracted := Function.update state.extracted j true
        inserted := Function.update state.inserted j true
        depsByLedgerKeyID := state.depsByLedgerKeyID ++ keys.map fun key => (key, j) }

/-- The plugin between `PreValidate` and the loop of `Evaluate`. -/
def State.unpack (state : State) (i : ℕ) (ns : GoString)
    (rest : List GoString) (ccEP : Bytes) : State :=
  match extractValidationArtifacts v (txBytes block i) with
  | .error (.panic _) => { state with crashed := true }
  | .error (.error text) => state.post i ns rest (.error (.endorsementPolicy text))
  | .ok va =>
    match v.codec.txRwSetFromProtoBytes va.rwset with
    | .error text =>
      state.post i ns rest (.error (.endorsementPolicy
        ("txRWSet.FromProtoBytes failed on tx (" ++
          toString v.blockNumber ++ "," ++ toString i ++ "): " ++ text)))
    | .ok rwset =>
      state.setStage i (.evaluating ⟨ns, rest, ccEP, signatureSet va.prp va.endorsements⟩
        ((writtenKeys rwset ns).map (WrittenKey.ledgerKeyID ns)) .new)

/-- A move of worker `i`.  A worker that waits stays where it is. -/
def State.move (state : State) (i choice : ℕ) : State :=
  match state.stage i with
  | .waiting => state
  | .choosing [] =>
    match validateTx v (txBytes block i) with
    | .finished result => state.setStage i (.done result)
    | .dispatched txID env _ => state.setStage i (.done (lastResult v env txID))
  | .choosing (first :: others) =>
    match (first :: others)[choice]? with
    | none => state
    | some ns =>
      match v.getInfoForValidate ns with
      | .error err => state.setStage i (.done (infoResult err))
      | .ok ccEP => state.setStage i (.preparing ns ((first :: others).erase ns) ccEP (i + 1))
  | .preparing ns rest ccEP (count + 1) =>
    (state.extract v block count).setStage i (.preparing ns rest ccEP count)
  | .preparing ns rest ccEP 0 => state.unpack v block i ns rest ccEP
  | .evaluating job [] checker =>
    state.post i job.ns job.rest
      (evaluateFrom v.support (v.blockNumber, i) job.ccEP job.sd job.ns (fun _ => false) [] checker)
  | .evaluating job (key :: keys) checker =>
    if (List.range i).all state.inserted then
      state.setStage i (.awaiting job key (state.dependenciesForTxnum key i) keys checker)
    else state
  | .awaiting job key (first :: others) keys checker =>
    match (first :: others)[choice]? with
    | none => state
    | some dep => state.setStage i (.blocked job key dep ((first :: others).erase dep) keys checker)
  | .awaiting job key [] keys checker =>
    match checkSBAndCCEP v.support (v.blockNumber, i) job.ccEP job.sd key
      (readValidationParameter v.support key) checker with
    | .error err => state.post i job.ns job.rest (.error err)
    | .ok checker => state.setStage i (.evaluating job keys checker)
  | .blocked job key dep deps keys checker =>
    match state.results dep job.ns with
    | none => state
    | some (.error _) => state.setStage i (.awaiting job key deps keys checker)
    | some (.ok ()) =>
      match checkSBAndCCEP v.support (v.blockNumber, i) job.ccEP job.sd key
        (.error .updated) checker with
      | .error err => state.post i job.ns job.rest (.error err)
      | .ok _ => state
  | .done _ => state

def Stage.isDone : Stage → Bool
  | .done _ => true
  | _ => false

variable (workers : ℕ)

/-- The next worker starts if the semaphore lets it. -/
def State.start (state : State) : State :=
  if state.started < block.length ∧ ((List.range state.started).filter fun i =>
        !(state.stage i).isDone).length < workers then
    { state with
      started := state.started + 1
      stage := Function.update state.stage state.started
        (match validateTx v (txBytes block state.started) with
          | .finished result => .done result
          | .dispatched _ _ namespaces => .choosing namespaces) }
  else state

inductive Event where
  | start
  | move (i choice : ℕ)

def State.step (state : State) (event : Event) : State :=
  if state.crashed then state
  else
    match event with
    | .start => state.start v block workers
    | .move i choice => state.move v block i choice

def run (events : List Event) : State :=
  events.foldl (State.step v block workers) .initial

end Steps

end FabricSequencer.TxValidator
