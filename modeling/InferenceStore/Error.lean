/-
Every failure of the store by its cause, and the one line a client reads for it. Each family
of causes writes its own wording; `Error.message` adds the class that opens the line.
A backend of the host words its own refusals, so that family has an open constructor.
-/

namespace InferenceStore

inductive Side where
  | input
  | output
  deriving DecidableEq, Repr

namespace Side

def name : Side → String
  | .input => "input"
  | .output => "output"

def capitalName : Side → String
  | .input => "Input"
  | .output => "Output"

def scope : Side → String
  | .input => "INPUTS"
  | .output => "OUTPUTS"

end Side

/-- What a command needs at a key that holds nothing. -/
inductive Expected where
  | tensor
  | model
  | script
  | anything
  deriving DecidableEq, Repr

def Expected.name : Expected → String
  | .tensor => "tensor"
  | .model => "model"
  | .script => "script"
  | .anything => "tensor, model or script"

inductive SyntaxFault where
  | notText
  | invalidDevice
  | invalidTimeout
  | missingTimeout
  | missingScriptTimeout
  | unknownCommand (name : String)
  | noRunInfo
  | unknownInfo (argument : String)
  | unknownBackend
  | missingTag
  | invalidArgument (name : String)
  | dependentOption (option required : String)
  | missingPart (part : String)
  | nodeNames (side : Side)
  | scopeMissing (side : Side)
  | scopeMissingFor (side : Side) (backend : String)
  | inputsUnwanted
  | blobExpected
  | unexpected (argument : String)
  | countNotPositive (side : Side)
  | countNotOfModel (side : Side)
  | modelKeys (side : Side)
  | entryPointCount
  | functionMissing
  | scopeCount (what : String)
  | scopeKeys (what : String)
  | scopeRepeated (scope : String)
  | scriptParameter (argument : String)
  | sectionRepeated
  | listOutsideInputs
  | listRepeated
  | sectionParameter (argument : String)
  deriving DecidableEq, Repr

def SyntaxFault.message : SyntaxFault → String
  | .notText => "argument is not valid UTF-8"
  | .invalidDevice => "Invalid DEVICE"
  | .invalidTimeout => "Invalid value for TIMEOUT"
  | .missingTimeout => "No value provided for TIMEOUT"
  | .missingScriptTimeout => "No value provided for TIMEOUT in AI.SCRIPTEXECUTE"
  | .unknownCommand name => "unknown command '" ++ name ++ "'"
  | .noRunInfo => "cannot find run info for key"
  | .unknownInfo argument => "unsupported subcommand " ++ argument ++ " for AI.INFO"
  | .unknownBackend => "unsupported backend"
  | .missingTag => "Missing TAG value"
  | .invalidArgument name => "Invalid argument for " ++ name
  | .dependentOption option required => option ++ " specified without " ++ required
  | .missingPart part => "Insufficient arguments, missing " ++ part
  | .nodeNames side =>
      "number of model " ++ side.name ++ "s does not match the number of given arguments"
  | .scopeMissing side => side.scope ++ " not specified"
  | .scopeMissingFor side backend => side.scope ++ " not specified for " ++ backend
  | .inputsUnwanted => "INPUTS argument should not be specified for this backend"
  | .blobExpected => "Invalid argument, expected BLOB"
  | .unexpected argument => "Invalid argument: " ++ argument
  | .countNotPositive side => side.capitalName ++ " count must be a positive integer"
  | .countNotOfModel side =>
      "Number of keys given as " ++ side.scope ++ " here does not match model definition"
  | .modelKeys side =>
      "number of " ++ side.name ++
        " keys to AI.MODELEXECUTE command does not match the number of given arguments"
  | .entryPointCount => "Non numeric entry points number provided to AI.SCRIPTSTORE command"
  | .functionMissing => "function name not specified"
  | .scopeCount what => "Invalid argument for " ++ what ++ " count in AI.SCRIPTEXECUTE"
  | .scopeKeys what =>
      "number of " ++ what ++
        " to AI.SCRIPTEXECUTE command does not match the number of given arguments"
  | .scopeRepeated scope =>
      "Already Encountered " ++ scope ++ " scope in AI.SCRIPTEXECUTE command"
  | .scriptParameter argument => "Unrecognized parameter to AI.SCRIPTEXECUTE: " ++ argument
  | .sectionRepeated => "Already encountered an INPUTS section in SCRIPTRUN"
  | .listOutsideInputs =>
      "Encountered a variable size list of tensors outside of input section"
  | .listRepeated => "Already encountered a variable size list of tensors"
  | .sectionParameter argument => "Unrecognized parameter to SCRIPTRUN: " ++ argument

inductive DagFault where
  | tooShort (command : String)
  | unexpected (argument : String)
  | missingCount (keyword : String)
  | invalidCount (keyword : String)
  | loadKeys
  | persistKeys
  | persistReadOnly
  | persistRepeated
  | missingRouting
  | missingTimeout
  | noKeys
  | empty
  | modelExecuteDeprecated
  | scriptExecuteDeprecated
  | scriptExecuteReadOnly
  | modelRunModern
  | scriptRunModern
  | scriptRunReadOnly
  | unsupportedCommand
  | innerTimeout
  | inputUnbound
  | persistUnbound
  deriving DecidableEq, Repr

def DagFault.message : DagFault → String
  | .tooShort command => "missing arguments for '" ++ command ++ "' command"
  | .unexpected argument => "Invalid DAG command. Unexpected argument: " ++ argument
  | .missingCount keyword => "missing arguments after " ++ keyword ++ " keyword in DAG command"
  | .invalidCount keyword =>
      "invalid or negative value found in number of keys to " ++ keyword
  | .loadKeys => "number of keys to LOAD into DAG does not match the number of given arguments"
  | .persistKeys =>
      "number of keys to PERSIST after DAG execution does not match the number of given arguments"
  | .persistReadOnly => "PERSIST cannot be specified in a read-only DAG"
  | .persistRepeated => "PERSIST keys must be unique"
  | .missingRouting => "Missing ROUTING value"
  | .missingTimeout => "No value provided for TIMEOUT"
  | .noKeys =>
      "AI.DAGEXECUTE and AI.DAGEXECUTE_RO commands must contain at least one out of " ++
        "ROUTING, LOAD, PERSIST keywords"
  | .empty => "DAG is empty"
  | .modelExecuteDeprecated =>
      "AI.MODELEXECUTE cannot be used in a deprecated AI.DAGRUN command"
  | .scriptExecuteDeprecated =>
      "AI.SCRIPTEXECUTE cannot be used in a deprecated AI.DAGRUN command"
  | .scriptExecuteReadOnly =>
      "AI.SCRIPTEXECUTE command cannot be specified in a read-only DAG"
  | .modelRunModern => "Deprecated AI.MODELRUN cannot be used in AI.DAGEXECUTE command"
  | .scriptRunModern => "Deprecated AI.SCRIPTRUN cannot be used in AI.DAGEXECUTE command"
  | .scriptRunReadOnly => "AI.SCRIPTRUN command cannot be specified in a read-only DAG"
  | .unsupportedCommand => "Unsupported command within DAG"
  | .innerTimeout => "TIMEOUT not allowed within a DAG command"
  | .inputUnbound => "INPUT key cannot be found in DAG"
  | .persistUnbound => "PERSIST key cannot be found in DAG"

inductive TensorFault where
  | invalidShape
  | lengthMismatch
  | tooLarge
  | valueCount
  | commandValueCount
  | invalidValue
  | notNumeric
  | invalidType
  | singleBlob
  | unknownFormat
  | blobAndValues
  | nothingToStack
  | incompatibleRows
  | rowsOutOfBounds
  deriving DecidableEq, Repr

def TensorFault.message : TensorFault → String
  | .invalidShape => "invalid or negative value found in tensor shape"
  | .lengthMismatch => "data length does not match tensor shape and type"
  | .tooLarge => "tensor size exceeds the maximum allowed"
  | .valueCount => "wrong number of values for tensor shape"
  | .commandValueCount => "wrong number of values was given in 'AI.TENSORSET' command"
  | .invalidValue => "invalid value"
  | .notNumeric => "STRING tensors are not numeric"
  | .invalidType => "invalid data type"
  | .singleBlob =>
      "a single binary string should come after the BLOB argument in 'AI.TENSORSET' command"
  | .unknownFormat => "unsupported data format"
  | .blobAndValues => "both BLOB and VALUES specified"
  | .nothingToStack => "cannot concatenate an empty tensor list"
  | .incompatibleRows => "tensors cannot be concatenated along the batch dimension"
  | .rowsOutOfBounds => "slice is out of bounds for the batch dimension"

inductive BackendFault where
  | notLoaded (backend : String)
  | noScripts (backend : String)
  | notEntryPoint (function : String)
  | noSuchFunction (function : String)
  | emptyBatch
  | batchSize
  | modelOutputs
  | scriptOutputs
  | refused (reason : String)
  deriving DecidableEq, Repr

def BackendFault.message : BackendFault → String
  | .notLoaded backend => "Backend not loaded: " ++ backend
  | .noScripts backend => backend ++ " backend does not support scripts"
  | .notEntryPoint function =>
      "Function " ++ function ++ " is not an entry point of the script"
  | .noSuchFunction function =>
      "Function " ++ function ++ " does not exist in the given script."
  | .emptyBatch => "cannot run an empty batch"
  | .batchSize => "Model did not generate the expected batch size"
  | .modelOutputs => "Model did not generate the expected number of outputs"
  | .scriptOutputs => "Script did not generate the expected number of outputs"
  | .refused reason => reason

inductive ConfigFault where
  | oddArguments
  | invalidValue (name value : String)
  | timeoutTooShort (name : String)
  | unknownParameter (name : String)
  | missingPath
  | missingChunkSize
  | invalidChunkSize
  | unknownSubcommand
  deriving DecidableEq, Repr

def ConfigFault.message : ConfigFault → String
  | .oddArguments => "Invalid number of arguments, expected KEY VALUE pairs"
  | .invalidValue name value => "Invalid value for " ++ name ++ ": " ++ value
  | .timeoutTooShort name => name ++ " must be at least 1000 milliseconds"
  | .unknownParameter name => "Invalid configuration parameter: " ++ name
  | .missingPath => "BACKENDSPATH: missing path argument"
  | .missingChunkSize => "MODEL_CHUNK_SIZE: missing chunk size"
  | .invalidChunkSize => "MODEL_CHUNK_SIZE: invalid chunk size"
  | .unknownSubcommand => "unsupported subcommand"

inductive EncodingFault where
  | truncated
  | unsupportedVersion (version : Nat)
  | unknownBackend
  | unknownType
  | notText
  | invalidShape
  deriving DecidableEq, Repr

def EncodingFault.message : EncodingFault → String
  | .truncated => "truncated encoding"
  | .unsupportedVersion version => "unsupported encoding version " ++ toString version
  | .unknownBackend => "unknown backend in encoding"
  | .unknownType => "unknown data type in encoding"
  | .notText => "invalid UTF-8 in encoding"
  | .invalidShape => "invalid tensor shape in encoding"

inductive Error where
  | wrongArity (command : String)
  | wrongType
  | crossSlot
  | emptyKey (expected : Expected)
  | malformed (fault : SyntaxFault)
  | dag (fault : DagFault)
  | tensor (fault : TensorFault)
  | backend (fault : BackendFault)
  | config (fault : ConfigFault)
  | encoding (fault : EncodingFault)
  | queueClosed
  | timedOut
  deriving DecidableEq, Repr

def Error.message : Error → String
  | .wrongArity command => "ERR wrong number of arguments for '" ++ command ++ "' command"
  | .wrongType => "WRONGTYPE Operation against a key holding the wrong kind of value"
  | .crossSlot => "ERR CROSSSLOT Keys in request don't hash to the same slot"
  | .emptyKey expected => "ERR " ++ expected.name ++ " key is empty"
  | .malformed fault => "ERR " ++ fault.message
  | .dag fault => "ERR " ++ fault.message
  | .tensor fault => "ERR " ++ fault.message
  | .backend fault => "ERR " ++ fault.message
  | .config fault => "ERR " ++ fault.message
  | .encoding fault => "ERR " ++ fault.message
  | .queueClosed => "ERR run queue shut down"
  | .timedOut => "TIMEDOUT"

abbrev Outcome (α : Type) := Except Error α

end InferenceStore
