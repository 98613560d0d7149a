import InferenceStore.Dag.Basic

/-
The commands that run graphs. Clauses come first, in any order and each at most once; then the
operations, each behind a separator. Every name that an operation reads has to be loaded or
written before, and every name to persist has to be there at the end. Models and scripts are
looked up while the command is read, so the graph runs the instances of that moment.
-/

namespace InferenceStore

open Command

inductive DagFlavor where
  | execute
  | executeReadOnly
  | run
  | runReadOnly
  deriving DecidableEq, Repr

namespace DagFlavor

def name : DagFlavor → String
  | .execute => "AI.DAGEXECUTE"
  | .executeReadOnly => "AI.DAGEXECUTE_RO"
  | .run => "AI.DAGRUN"
  | .runReadOnly => "AI.DAGRUN_RO"

def all : List DagFlavor := [.execute, .executeReadOnly, .run, .runReadOnly]

def ofName? (name : String) : Option DagFlavor := all.find? fun flavor => flavor.name == name

def isReadOnly : DagFlavor → Bool
  | .executeReadOnly | .runReadOnly => true
  | _ => false

def isDeprecated : DagFlavor → Bool
  | .run | .runReadOnly => true
  | _ => false

end DagFlavor

inductive DagClause where
  | load
  | persist
  | routing
  | timeout
  deriving DecidableEq, Repr

namespace DagClause

def all : List DagClause := [.load, .persist, .routing, .timeout]

def keyword : DagClause → String
  | .load => "LOAD"
  | .persist => "PERSIST"
  | .routing => "ROUTING"
  | .timeout => "TIMEOUT"

/-- Deprecated commands have no routing clause. -/
def ofKeyword? (flavor : DagFlavor) (argument : Bytes) : Option DagClause :=
  all.find? fun clause =>
    Text.isKeyword argument clause.keyword && !(clause == .routing && flavor.isDeprecated)

end DagClause

namespace Dag

def unexpected (argument : Bytes) : Error := .dag (.unexpected (Text.decodeLossy argument))

def blank (flavor : DagFlavor) : Dag :=
  { ops := []
    load := []
    persist := []
    routing := none
    timeout := none
    readOnly := flavor.isReadOnly
    singleOp := false }

/-- A count and so many keys, none of which is the separator. -/
def keyList (keyword : String) (mismatch : DagFault) (arguments : List Bytes) :
    Outcome (List String × List Bytes) :=
  match arguments with
  | [] => .error (.dag (.missingCount keyword))
  | digits :: rest =>
      match Decimal.positive? digits with
      | none => .error (.dag (.invalidCount keyword))
      | some count =>
          match take? count rest with
          | none => .error (.dag mismatch)
          | some (keys, behind) =>
              if keys.any isChain then .error (.dag mismatch)
              else
                match texts keys with
                | .error cause => .error cause
                | .ok names => .ok (names, behind)

def clauseValue (missing : DagFault) (arguments : List Bytes) : Outcome (Bytes × List Bytes) :=
  match arguments with
  | [] => .error (.dag missing)
  | value :: rest => if isChain value then .error (.dag missing) else .ok (value, rest)

def readClause (flavor : DagFlavor) (dag : Dag) (clause : DagClause) (arguments : List Bytes) :
    Outcome (Dag × List Bytes) :=
  match clause with
  | .load => do
      let (keys, rest) ← keyList "LOAD" .loadKeys arguments
      pure ({ dag with load := keys }, rest)
  | .persist =>
      if flavor.isReadOnly then .error (.dag .persistReadOnly)
      else do
        let (keys, rest) ← keyList "PERSIST" .persistKeys arguments
        if firstOccurrences keys = keys then pure ({ dag with persist := keys }, rest)
        else .error (.dag .persistRepeated)
  | .routing => do
      let (value, rest) ← clauseValue .missingRouting arguments
      let key ← text value
      pure ({ dag with routing := some key }, rest)
  | .timeout => do
      let (value, rest) ← clauseValue .missingTimeout arguments
      let milliseconds ← Command.timeout value
      pure ({ dag with timeout := some milliseconds }, rest)

theorem length_of_keyList {keyword : String} {mismatch : DagFault} {names : List String}
    {arguments rest : List Bytes}
    (found : keyList keyword mismatch arguments = .ok (names, rest)) :
    rest.length < arguments.length := by
  unfold keyList at found
  split at found
  · cases found
  · split at found
    · cases found
    · split at found
      · cases found
      · rename_i keys behind cut
        split at found
        · cases found
        · split at found
          · cases found
          · cases found
            have lengths := length_of_take? cut
            simp only [List.length_cons]
            omega

theorem length_of_clauseValue {missing : DagFault} {value : Bytes} {arguments rest : List Bytes}
    (found : clauseValue missing arguments = .ok (value, rest)) :
    rest.length < arguments.length := by
  unfold clauseValue at found
  split at found
  · cases found
  · split at found
    · cases found
    · cases found
      exact Nat.lt_succ_self _

theorem length_of_readClause {flavor : DagFlavor} {dag extended : Dag} {clause : DagClause}
    {arguments rest : List Bytes}
    (found : readClause flavor dag clause arguments = .ok (extended, rest)) :
    rest.length < arguments.length := by
  cases clause with
  | load =>
      cases listed : keyList "LOAD" .loadKeys arguments with
      | error cause => simp [readClause, listed, bind, Except.bind] at found
      | ok pair =>
          simp only [readClause, listed, bind, Except.bind, pure, Except.pure] at found
          cases found
          exact length_of_keyList listed
  | persist =>
      cases readOnly : flavor.isReadOnly with
      | true => simp [readClause, readOnly] at found
      | false =>
          cases listed : keyList "PERSIST" .persistKeys arguments with
          | error cause => simp [readClause, readOnly, listed, bind, Except.bind] at found
          | ok pair =>
              simp only [readClause, readOnly, listed, bind, Except.bind, pure, Except.pure,
                Bool.false_eq_true, if_false] at found
              split at found
              · cases found
                exact length_of_keyList listed
              · cases found
  | routing =>
      cases single : clauseValue .missingRouting arguments with
      | error cause => simp [readClause, single, bind, Except.bind] at found
      | ok pair =>
          simp only [readClause, single, bind, Except.bind, pure, Except.pure] at found
          split at found
          · cases found
          · cases found
            exact length_of_clauseValue single
  | timeout =>
      cases single : clauseValue .missingTimeout arguments with
      | error cause => simp [readClause, single, bind, Except.bind] at found
      | ok pair =>
          simp only [readClause, single, bind, Except.bind, pure, Except.pure] at found
          split at found
          · cases found
          · cases found
            exact length_of_clauseValue single

/-- Reads clauses up to the first separator, which stays in the rest. -/
def readClauses (flavor : DagFlavor) (seen : List DagClause) (dag : Dag)
    (arguments : List Bytes) : Outcome (Dag × List Bytes) :=
  match arguments with
  | [] => .ok (dag, [])
  | argument :: rest =>
      if isChain argument then .ok (dag, argument :: rest)
      else
        match DagClause.ofKeyword? flavor argument with
        | none => .error (unexpected argument)
        | some clause =>
            if seen.contains clause then .error (unexpected argument)
            else
              match _found : readClause flavor dag clause rest with
              | .error cause => .error cause
              | .ok (extended, behind) =>
                  readClauses flavor (clause :: seen) extended behind
termination_by arguments.length
decreasing_by
  have shorter := length_of_readClause _found
  simp only [List.length_cons]
  omega

def segments : List Bytes → List (List Bytes)
  | [] => [[]]
  | argument :: rest =>
      if isChain argument then [] :: segments rest
      else
        match segments rest with
        | [] => [[argument]]
        | segment :: more => (argument :: segment) :: more

def readModelRun (flavor : DagFlavor) (keyspace : Keyspace) (deprecated : Bool)
    (segment : List Bytes) : Outcome Op :=
  if deprecated then
    if flavor.isDeprecated then (ModelRun.ofRun keyspace segment).map .model
    else .error (.dag .modelRunModern)
  else if flavor.isDeprecated then .error (.dag .modelExecuteDeprecated)
  else (ModelRun.ofExecute keyspace segment).map .model

/-- The call of a script, by the command that the flavor allows. Read-only graphs have none. -/
def readScriptRun (flavor : DagFlavor) (keyspace : Keyspace) (deprecated : Bool)
    (segment : List Bytes) : Outcome Op :=
  if deprecated then
    if !flavor.isDeprecated then .error (.dag .scriptRunModern)
    else if flavor.isReadOnly then .error (.dag .scriptRunReadOnly)
    else (ScriptRun.ofRun keyspace segment).map .script
  else if flavor.isReadOnly then .error (.dag .scriptExecuteReadOnly)
  else if flavor.isDeprecated then .error (.dag .scriptExecuteDeprecated)
  else (ScriptRun.ofExecute keyspace segment).map .script

def readCommand (flavor : DagFlavor) (keyspace : Keyspace) (segment : List Bytes) :
    Outcome Op :=
  match Command.name segment with
  | "AI.TENSORSET" => (TensorSet.ofArguments segment).map .tensorSet
  | "AI.TENSORGET" => (TensorGet.ofArguments segment).map .tensorGet
  | "AI.MODELEXECUTE" => readModelRun flavor keyspace false segment
  | "AI.MODELRUN" => readModelRun flavor keyspace true segment
  | "AI.SCRIPTEXECUTE" => readScriptRun flavor keyspace false segment
  | "AI.SCRIPTRUN" => readScriptRun flavor keyspace true segment
  | _ => .error (.dag .unsupportedCommand)

/-- One operation. Only the graph as a whole may have a timeout. -/
def readOp (flavor : DagFlavor) (keyspace : Keyspace) (segment : List Bytes) : Outcome Op := do
  let op ← readCommand flavor keyspace segment
  if op.timeout.isSome then .error (.dag .innerTimeout) else pure op

/-- The operations of all segments. An empty segment is a separator too many. -/
def readOps (flavor : DagFlavor) (keyspace : Keyspace) : List (List Bytes) → Outcome (List Op)
  | [] => .ok []
  | segment :: rest =>
      if segment.isEmpty then .error (unexpected chain)
      else do
        let op ← readOp flavor keyspace segment
        let ops ← readOps flavor keyspace rest
        pure (op :: ops)

/-- Checks the names of operations in turn; `available` are those bound so far. Returns the
names that are bound in the end. -/
def boundNames (available : List String) : List Op → Outcome (List String)
  | [] => .ok available
  | op :: rest =>
      if op.inputs.all available.contains then boundNames (available ++ op.outputs) rest
      else .error (.dag .inputUnbound)

def validateNames (dag : Dag) : Outcome Unit := do
  let bound ← boundNames dag.load dag.ops
  if dag.persist.all bound.contains then pure () else .error (.dag .persistUnbound)

/-- Deprecated commands have three arguments at least, the others five. -/
def checkLength (flavor : DagFlavor) (arguments : List Bytes) : Outcome Unit :=
  if flavor.isDeprecated then
    if arguments.length < 4 then .error (.wrongArity flavor.name) else .ok ()
  else if arguments.length < 6 then .error (.dag (.tooShort flavor.name))
  else .ok ()

def ofArguments (flavor : DagFlavor) (keyspace : Keyspace) (arguments : List Bytes) :
    Outcome Dag := do
  checkLength flavor arguments
  let (header, rest) ← readClauses flavor [] (blank flavor) (arguments.drop 1)
  if !flavor.isDeprecated && header.routing.isNone && header.load.isEmpty &&
      header.persist.isEmpty then
    .error (.dag .noKeys)
  else
    match rest with
    | [] => .error (.dag .empty)
    | _ :: operations => do
        let ops ← readOps flavor keyspace (segments operations)
        let dag := { header with ops := ops }
        validateNames dag
        pure dag

end Dag

end InferenceStore
