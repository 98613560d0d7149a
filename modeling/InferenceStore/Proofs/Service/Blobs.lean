import InferenceStore.Proofs.Command.Settings
import InferenceStore.Proofs.Command.Storing
import InferenceStore.Proofs.Service.Management

/-
The way of a blob to a client and back. It goes out in pieces whose size is a setting, and comes in
joined from whatever pieces there are. No setting makes a piece empty, so every blob is cut to its
end, and no piece is lost or longer than it may be.
-/

namespace InferenceStore

open Outcome Command

/-! ### Pieces -/

/-- A blob cut into pieces of one size. Only the last one may be shorter, and there is an empty one
only if the blob is empty. -/
structure Pieces (size : Nat) (blob : Bytes) (pieces : List Bytes) : Prop where
  joined : pieces.flatten = blob
  several : pieces ≠ []
  short : ∀ piece ∈ pieces, piece.length ≤ size
  full : ∀ piece ∈ pieces.dropLast, piece.length = size
  filled : blob ≠ [] → ∀ piece ∈ pieces, piece ≠ []

/-- The reply gives these pieces, a single one as it is and several in a list. -/
inductive Gives : Reply → List Bytes → Prop
  | single (piece : Bytes) : Gives (.bulk piece) [piece]
  | listed {pieces : List Bytes} (several : 1 < pieces.length) :
      Gives (.array (pieces.map .bulk)) pieces

namespace Bytes

def slice? (blob : Bytes) (start stop : Nat) : Option Bytes :=
  if start ≤ stop ∧ stop ≤ blob.length then some (blob.extract start stop) else none

/-- A slice for every place from `start` on that is in front of the end, one every `size` bytes.
There are none if the places do not move on, if a place and the size add up to the limit of sums or
more, or if a slice leaves the blob. -/
def slices? (limit size : Nat) (blob : Bytes) (start : Nat) : Option (List Bytes) :=
  if size = 0 then none
  else if start < blob.length then
    if limit ≤ start + size then none
    else do
      let piece ← blob.slice? start (min (start + size) blob.length)
      let behind ← slices? limit size blob (start + size)
      pure (piece :: behind)
  else some []
termination_by blob.length - start

theorem slice?_of_le {blob : Bytes} {start stop : Nat} (ordered : start ≤ stop)
    (within : stop ≤ blob.length) : blob.slice? start stop = some (blob.extract start stop) :=
  if_pos ⟨ordered, within⟩

end Bytes

namespace Pieces

variable {size : Nat} {blob front behind : Bytes} {pieces : List Bytes}

theorem single (short : blob.length ≤ size) : Pieces size blob [blob] := by
  constructor
  · exact List.flatten_singleton
  · exact List.cons_ne_nil _ _
  · intro piece member
    rw [List.mem_singleton.mp member]
    exact short
  · intro piece member
    cases member
  · intro several piece member
    rw [List.mem_singleton.mp member]
    exact several

theorem cons (positive : 0 < size) (length : front.length = size) (left : behind ≠ [])
    (others : Pieces size behind pieces) : Pieces size (front ++ behind) (front :: pieces) := by
  constructor
  · rw [List.flatten_cons, others.joined]
  · exact List.cons_ne_nil _ _
  · intro piece member
    rcases List.mem_cons.mp member with same | inside
    · rw [same, length]
    · exact others.short piece inside
  · intro piece member
    rw [List.dropLast_cons_of_ne_nil others.several] at member
    rcases List.mem_cons.mp member with same | inside
    · rw [same, length]
    · exact others.full piece inside
  · intro _ piece member
    rcases List.mem_cons.mp member with same | inside
    · rw [same]
      apply List.ne_nil_of_length_pos
      omega
    · exact others.filled left piece inside

end Pieces

namespace Engine

variable {size : Nat} {blob : Bytes}

theorem chunks_of_short (short : blob.length ≤ size) : chunks size blob = [blob] := by
  rw [chunks, dif_pos (Or.inl short)]

theorem chunks_of_long (positive : 0 < size) (long : size < blob.length) :
    chunks size blob = blob.take size :: chunks size (blob.drop size) := by
  rw [chunks, dif_neg]
  omega

theorem pieces_chunks (positive : 0 < size) (blob : Bytes) :
    Pieces size blob (chunks size blob) := by
  induction blob using chunks.induct size with
  | case1 blob small =>
      have short : blob.length ≤ size := by omega
      rw [chunks_of_short short]
      exact .single short
  | case2 blob large ih =>
      have long : size < blob.length := by omega
      have left : blob.drop size ≠ [] := by
        apply List.ne_nil_of_length_pos
        rw [List.length_drop]
        omega
      have length : (blob.take size).length = size := by
        rw [List.length_take]
        omega
      have pieces := ih.cons positive length left
      rw [List.take_append_drop] at pieces
      rw [chunks_of_long positive long]
      exact pieces

theorem slices?_at_end {limit start : Nat} (positive : 0 < size) (ended : blob.length ≤ start) :
    blob.slices? limit size start = some [] := by
  rw [Bytes.slices?, if_neg (Nat.ne_of_gt positive), if_neg (Nat.not_lt_of_le ended)]

/-- The places at which a blob is cut move on, and every slice is within the blob. -/
theorem slices?_eq {limit start : Nat} (positive : 0 < size) (within : start < blob.length)
    (sums : blob.length + size ≤ limit) :
    blob.slices? limit size start = some (chunks size (blob.drop start)) := by
  induction start using Bytes.slices?.induct limit size blob with
  | case1 start zero => omega
  | case2 start moves inside above => omega
  | case3 start moves inside below ih =>
      rw [Bytes.slices?, if_neg moves, if_pos inside, if_neg below]
      by_cases last : blob.length ≤ start + size
      · have rest : (blob.drop start).length = blob.length - start := List.length_drop
        have short : (blob.drop start).length ≤ size := by omega
        rw [Nat.min_eq_right last, Bytes.slice?_of_le (Nat.le_of_lt inside) (Nat.le_refl _),
          slices?_at_end positive last, chunks_of_short short, List.extract_eq_take_drop, ← rest,
          List.take_length]
        rfl
      · have further : start + size < blob.length := Nat.lt_of_not_le last
        have long : size < (blob.drop start).length := by
          rw [List.length_drop]
          omega
        rw [Nat.min_eq_left (Nat.le_of_lt further),
          Bytes.slice?_of_le (Nat.le_add_right start size) (Nat.le_of_lt further), ih further,
          chunks_of_long positive long, List.drop_drop, List.extract_eq_take_drop,
          Nat.add_sub_cancel_left]
        rfl
  | case4 start moves outside => exact absurd within outside

theorem gives_blobReply (positive : 0 < size) (blob : Bytes) :
    Gives (blobReply size blob) (chunks size blob) := by
  unfold blobReply
  by_cases short : blob.length ≤ size
  · rw [if_pos short, chunks_of_short short]
    exact .single blob
  · have long : size < blob.length := Nat.lt_of_not_le short
    have others := List.length_pos_iff.mpr (pieces_chunks positive (blob.drop size)).several
    rw [if_neg short]
    apply Gives.listed
    rw [chunks_of_long positive long, List.length_cons]
    omega

/-! ### Out and in -/

variable {engine : Engine} {words parts : List Bytes} {key : String}

theorem begin_of_blob {command : Bytes} {model : Model}
    (named : Command.name (command :: Text.encode key :: parts) = "AI.MODELGET")
    (held : engine.keyspace.getModel key = .ok model) (few : parts.length ≤ 2)
    (wanted : parts.any (Text.isKeyword · "BLOB") = true) :
    engine.begin (command :: Text.encode key :: parts) =
      (engine, .finished
        (if parts.any (Text.isKeyword · "META") then
          .array (modelFields model.definition ++
            [.status "blob", blobReply engine.config.modelChunkSize model.blob])
        else blobReply engine.config.modelChunkSize model.blob)) := by
  have spelled : text (Text.encode key) = .ok key := text_eq_ok_iff.mpr rfl
  have answered : engine.getModel (command :: Text.encode key :: parts) = .ok
      (if parts.any (Text.isKeyword · "META") then
        .array (modelFields model.definition ++
          [.status "blob", blobReply engine.config.modelChunkSize model.blob])
      else blobReply engine.config.modelChunkSize model.blob) := by
    unfold getModel
    dsimp only
    rw [if_neg (Nat.not_lt_of_le few)]
    apply bind_eq_ok.mpr
    refine ⟨key, spelled, bind_eq_ok.mpr ⟨model, held, ?_⟩⟩
    rw [wanted]
    cases parts.any (Text.isKeyword · "META") with
    | false => rfl
    | true => rfl
  simp only [Engine.begin, named, answer, answered, Reply.ofOutcome]

structure Loads (engine : Engine) (key : String) (definition : ModelDefinition) (blob : Bytes) :
    Prop where
  free : isFreeForModel engine.keyspace key = true
  loaded : ∃ model, Model.load engine.registry engine.config engine.nextInstance key definition
    blob = .ok model

/-- The command is accepted exactly if the blob can be loaded for the key. Then the key holds a
model of this definition and blob. -/
structure Stores (engine : Engine) (words : List Bytes) (key : String)
    (definition : ModelDefinition) (blob : Bytes) : Prop where
  okay_iff : (engine.begin words).2 = .finished .okay ↔ engine.Loads key definition blob
  held : (engine.begin words).2 = .finished .okay → ∃ model,
    (engine.begin words).1.keyspace.getModel key = .ok model ∧ model.definition = definition ∧
      model.blob = blob

theorem installModel_of_free {model : Model} (free : isFreeForModel engine.keyspace key = true) :
    (engine.installModel key model).2 = .ok .okay ∧
      (engine.installModel key model).1.keyspace.getModel key = .ok model := by
  rw [installModel_eq, install_of_takes ((Keyspace.isFreeForModel_iff model).mp free)]
  refine ⟨rfl, ?_⟩
  rw [Keyspace.getModel_eq_ok, Keyspace.get?_set, if_pos rfl]

section Storing

variable {store : ModelStore} {command : String}
  (read : ModelStore.ofArguments command words = .ok store)

include read

theorem storeModel_of_refused
    (refused : ¬ engine.Loads store.key store.definition store.blob) :
    ∃ cause, (engine.storeModel command words).2 = .error cause := by
  cases free : isFreeForModel engine.keyspace store.key with
  | false =>
      simp only [storeModel, read, free, Bool.not_false, if_true]
      exact ⟨_, rfl⟩
  | true =>
      cases loaded : Model.load engine.registry engine.config engine.nextInstance store.key
          store.definition store.blob with
      | error cause =>
          simp only [storeModel, read, free, loadModel, loaded, Bool.not_true,
            Bool.false_eq_true, if_false]
          exact ⟨cause, rfl⟩
      | ok model => exact absurd ⟨free, model, loaded⟩ refused

theorem storeModel_of_loads (loads : engine.Loads store.key store.definition store.blob) :
    (engine.storeModel command words).2 = .ok .okay ∧ ∃ model,
      (engine.storeModel command words).1.keyspace.getModel store.key = .ok model ∧
        model.definition = store.definition ∧ model.blob = store.blob := by
  rcases loads with ⟨free, model, loaded⟩
  rcases Model.load_eq_ok_iff.mp loaded with ⟨registration, handle, _, _, same⟩
  have kept := keeps_loadModel engine store.key store.definition store.blob
  rw [← kept.keyspace] at free
  have installed : engine.storeModel command words =
      (engine.loadModel store.key store.definition store.blob).1.installModel store.key model := by
    rw [kept.keyspace] at free
    simp only [storeModel, read, free, loadModel, loaded, Bool.not_true, Bool.false_eq_true,
      if_false]
  rw [installed]
  rcases installModel_of_free free with ⟨okay, held⟩
  refine ⟨okay, model, held, ?_, ?_⟩
  · rw [same]
  · rw [same]

end Storing

theorem stores_of_ofArguments {store : ModelStore}
    (named : Command.name words = "AI.MODELSTORE")
    (read : ModelStore.ofArguments "AI.MODELSTORE" words = .ok store) :
    engine.Stores words store.key store.definition store.blob := by
  have begun : engine.begin words = immediate (engine.storeModel "AI.MODELSTORE" words) := by
    simp only [Engine.begin, named]
  by_cases loads : engine.Loads store.key store.definition store.blob
  · rcases storeModel_of_loads read loads with ⟨okay, held⟩
    constructor
    · rw [begun, immediate, okay]
      exact ⟨fun _ => loads, fun _ => rfl⟩
    · intro _
      rw [begun]
      exact held
  · rcases storeModel_of_refused read loads with ⟨cause, refused⟩
    have never : (engine.begin words).2 ≠ .finished .okay := by
      rw [begun, immediate, refused]
      intro same
      cases same
    constructor
    · exact ⟨fun okay => absurd okay never, fun loaded => absurd loaded loads⟩
    · intro okay
      exact absurd okay never

/-! ### Out and in again -/

/-- Whatever changes of settings a store has seen, its blobs are given in whole: in pieces of no more
than the size that is set, all of them full but the last. They are slices within the blob, and no sum
that is taken to find them reaches twice its length. A store to which they are given behind the
keyword for a blob joins them to the same one. -/
theorem gives_whole_blobs {arguments : List String} {started : Config}
    (accepted : Config.ofArguments arguments = .ok started) (changes : List Config.Change) :
    let config := changes.foldl Config.follow started
    config.Usable ∧
    (∀ (engine : Engine) words, Command.name words = "AI.CONFIG" →
      (engine.begin words).1.config = engine.config.follow (.command words)) ∧
    ∀ (engine : Engine) (key : String) (model : Model), engine.config = config →
      engine.keyspace.getModel key = .ok model →
      ∃ reply pieces,
        (∀ command parts, Command.name (command :: Text.encode key :: parts) = "AI.MODELGET" →
          parts.length ≤ 2 → parts.any (Text.isKeyword · "BLOB") = true →
          engine.begin (command :: Text.encode key :: parts) =
            (engine, .finished
              (if parts.any (Text.isKeyword · "META") then
                .array (modelFields model.definition ++ [.status "blob", reply])
              else reply))) ∧
        Gives reply pieces ∧ Pieces config.modelChunkSize model.blob pieces ∧
        (config.modelChunkSize < model.blob.length → ∀ limit, 2 * model.blob.length ≤ limit →
          model.blob.slices? limit config.modelChunkSize 0 = some pieces) ∧
        ∀ (other : Engine) words name definition, Command.name words = "AI.MODELSTORE" →
          definition.Consistent → ModelStore.Written name definition pieces words →
          other.Stores words name definition model.blob := by
  intro config
  have usable : config.Usable := (Config.usable_of_ofArguments accepted).foldl changes
  have positive : 0 < config.modelChunkSize := usable.modelChunkSize
  refine ⟨usable, fun _ _ => config_begin, ?_⟩
  intro engine key model set held
  have pieces := pieces_chunks positive model.blob
  refine ⟨blobReply config.modelChunkSize model.blob, chunks config.modelChunkSize model.blob, ?_,
    gives_blobReply positive model.blob, pieces, ?_, ?_⟩
  · intro command parts named few wanted
    rw [← set]
    exact begin_of_blob named held few wanted
  · intro long limit sums
    exact slices?_eq positive (Nat.lt_trans positive long) (by omega)
  · intro other words name definition named consistent written
    have read : ModelStore.ofArguments "AI.MODELSTORE" words = .ok ⟨name, definition, _⟩ :=
      ModelStore.ofArguments_of_written consistent pieces.several written
    rw [pieces.joined] at read
    exact stores_of_ofArguments named read

namespace Sample

def settings : List String := ["threads_per_queue", "2", "MODEL_CHUNK_SIZE", "64"]

def started : Config := { Config.initial with threadsPerQueue := 2, modelChunkSize := 64 }

/-- Two changes that fail, and one that makes pieces of two bytes. -/
def changes : List Config.Change :=
  [ .set "ONNX_TIMEOUT" "999", .command (["AI.CONFIG", "MODEL_CHUNK_SIZE", "0"].map Text.encode),
    .command (["ai.config", "model_chunk_size", "+2"].map Text.encode) ]

def paired : Model :=
  { id := 0
    key := "pair"
    definition := definition
    inputCount := 1
    outputCount := 2
    blob := [48, 49, 120, 48, 50]
    registration := 0
    handle := ⟨1, 2, Except.ok⟩ }

def holder : Engine :=
  { (create started false).register (Probe.backend .torch) with
    config := changes.foldl Config.follow started
    keyspace := Keyspace.empty.set "pair" (.model paired) }

end Sample

/-- The blob is given in pieces of two bytes, and these are stored under another key. -/
theorem gives_whole_blob_of_pair :
    Config.ofArguments Sample.settings = .ok Sample.started ∧
    ∃ reply pieces,
      Sample.holder.begin (["AI.MODELGET", "pair", "Blob"].map Text.encode) =
        (Sample.holder, .finished reply) ∧
      Gives reply pieces ∧ Pieces 2 Sample.paired.blob pieces ∧
      (Sample.holder.begin (ModelStore.write (Text.encode "AI.MODELSTORE") "copy"
        Sample.definition pieces)).2 = .finished .okay := by
  have accepted : Config.ofArguments Sample.settings = .ok Sample.started := by decide +kernel
  have size : (Sample.changes.foldl Config.follow Sample.started).modelChunkSize = 2 := by
    decide +kernel
  obtain ⟨_, _, whole⟩ := gives_whole_blobs accepted Sample.changes
  obtain ⟨reply, pieces, given, gives, cut, _, stored⟩ :=
    whole Sample.holder "pair" Sample.paired rfl rfl
  rw [size] at cut
  refine ⟨accepted, reply, pieces, ?_, gives, cut, ?_⟩
  · exact given (Text.encode "AI.MODELGET") [Text.encode "Blob"] (by decide +kernel)
      (by decide) (by decide +kernel)
  · have consistent : Sample.definition.Consistent := by
      refine ⟨⟨?_, ?_, ?_, ?_, ?_⟩, ?_, ?_⟩ <;> decide
    have written : ModelStore.Written "copy" Sample.definition pieces
        (ModelStore.write (Text.encode "AI.MODELSTORE") "copy" Sample.definition pieces) :=
      ModelStore.written_write consistent nofun (by decide) (by decide) _
    have named : Command.name [Text.encode "AI.MODELSTORE"] = "AI.MODELSTORE" := by
      decide +kernel
    have back := stored Sample.holder (ModelStore.write (Text.encode "AI.MODELSTORE") "copy"
      Sample.definition pieces) "copy" Sample.definition named consistent written
    exact back.okay_iff.mpr ⟨rfl, _, rfl⟩

end Engine

end InferenceStore
