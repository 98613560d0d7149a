import InferenceStore.Command.Model
import InferenceStore.Proofs.Command.Arguments
import InferenceStore.Proofs.Encoding.Fields

/-
The language of the command that stores a model. Its sections stand in a fixed order and most of
them can be left out, which is seen from the next word: it is a keyword that comes later. Tags,
names and chunks are never looked at for keywords, since it is known beforehand where they stand.
-/

namespace InferenceStore

open Outcome

/-! ### Numbers -/

namespace Decimal

variable {text : Bytes} {n : Nat}

theorem nonNegative?_eq_some_iff : nonNegative? text = some n ↔ integer? text = some (n : Int) := by
  unfold nonNegative?
  constructor
  · intro read
    split at read
    · rename_i found
      cases read
      exact found
    · cases read
  · intro found
    rw [found]

theorem lt_of_nonNegative (read : nonNegative? text = some n) : (n : Int) < signedLimit := by
  have within := (Option.filter_eq_some_iff.mp (nonNegative?_eq_some_iff.mp read)).2
  exact of_decide_eq_true (Bool.and_eq_true_iff.mp within).2

theorem integer?_of_numeral (read : numeral? text = some n) (fits : (n : Int) < signedLimit) :
    integer? text = some (n : Int) := by
  have unsigned : integer? text = ((numeral? text).map Int.ofNat).filter
      fun n => -signedLimit ≤ n && n < signedLimit := by
    unfold integer?
    split
    · cases read
    · cases read
    · rfl
  have limit : (0 : Int) < signedLimit := by decide
  rw [unsigned, read]
  refine Option.filter_some_pos (Bool.and_eq_true_iff.mpr ⟨?_, decide_eq_true fits⟩)
  apply decide_eq_true
  exact Int.le_trans (by omega) (Int.natCast_nonneg n)

theorem nonNegative?_text (fits : (n : Int) < signedLimit) :
    nonNegative? (Text.encode (toString n)) = some n :=
  nonNegative?_eq_some_iff.mpr (integer?_of_numeral (numeral?_text n) fits)

theorem positive?_text (above : 0 < n) (fits : (n : Int) < signedLimit) :
    positive? (Text.encode (toString n)) = some n :=
  positive?_eq_some_iff.mpr ⟨above, integer?_of_numeral (numeral?_text n) fits⟩

end Decimal

namespace BackendKind

theorem ofName?_eq_some_iff {argument : Bytes} {kind : BackendKind} :
    ofName? argument = some kind ↔ Text.isKeyword argument kind.name = true := by
  apply Text.find?_isKeyword_iff
  · intro listed
    cases listed <;> decide
  · intro left right same
    revert same
    cases left <;> cases right <;> decide +kernel

theorem needsNodeNames_iff {kind : BackendKind} : kind.needsNodeNames = true ↔ kind = .tf := by
  cases kind <;> decide

end BackendKind

/-! ### Consistent definitions -/

structure BatchPolicy.Stepped (policy : BatchPolicy) : Prop where
  minBatchSize : policy.batchSize = 0 → policy.minBatchSize = 0
  minBatchTimeout : policy.minBatchSize = 0 → policy.minBatchTimeout = 0
  batchSizeFits : (policy.batchSize : Int) < signedLimit
  minBatchSizeFits : (policy.minBatchSize : Int) < signedLimit
  minBatchTimeoutFits : (policy.minBatchTimeout : Int) < signedLimit

/-- Graph nodes are named for the backend that needs it, and for no other. -/
structure ModelDefinition.Consistent (definition : ModelDefinition) : Prop where
  policy : definition.policy.Stepped
  named : definition.backend = .tf → definition.inputs ≠ [] ∧ definition.outputs ≠ []
  unnamed : definition.backend ≠ .tf → definition.inputs = [] ∧ definition.outputs = []

namespace Command

variable {arguments words rest : List Bytes} {keyword : String} {later : List String} {n : Nat}
  {names : List String}

/-! ### What comes later -/

def Opens (later : List String) (words : List Bytes) : Prop :=
  ∃ word rest, words = word :: rest ∧ ∃ keyword ∈ later, Text.isKeyword word keyword = true

theorem Opens.here {word : Bytes} (named : Text.isKeyword word keyword = true) :
    Opens (keyword :: later) (word :: rest) :=
  ⟨word, rest, rfl, keyword, List.mem_cons_self, named⟩

theorem Opens.behind (opens : Opens later rest) : Opens (keyword :: later) rest := by
  obtain ⟨word, behind, rfl, other, member, named⟩ := opens
  exact ⟨word, behind, rfl, other, List.mem_cons_of_mem keyword member, named⟩

def Apart (keyword : String) (later : List String) : Prop :=
  ∀ other ∈ later,
    (Text.encode keyword).map Text.lowerByte ≠ (Text.encode other).map Text.lowerByte

instance (keyword : String) (later : List String) : Decidable (Apart keyword later) :=
  inferInstanceAs (Decidable (∀ other ∈ later,
    (Text.encode keyword).map Text.lowerByte ≠ (Text.encode other).map Text.lowerByte))

theorem Opens.closed (opens : Opens later rest) (apart : Apart keyword later) :
    ∃ word behind, rest = word :: behind ∧ Text.isKeyword word keyword = false := by
  obtain ⟨word, behind, rfl, other, member, named⟩ := opens
  refine ⟨word, behind, rfl, Bool.eq_false_iff.mpr fun same => ?_⟩
  exact apart other member (Text.isKeyword_unique same named)

/-! ### Tags and devices -/

/-- A tag as it is written, which may be left out if it is empty. -/
inductive Tagged : String → List Bytes → Prop
  | omitted : Tagged "" []
  | written {word : Bytes} {tag : String} (named : Text.isKeyword word "TAG" = true) :
      Tagged tag [word, Text.encode tag]

theorem Tagged.opens {tag : String} (tagged : Tagged tag words) (opens : Opens later rest) :
    Opens ("TAG" :: later) (words ++ rest) := by
  cases tagged with
  | omitted => exact opens.behind
  | written named => exact .here named

theorem tagged_of_optionalTag {tag : String} (read : optionalTag arguments = .ok (tag, rest)) :
    ∃ words, Tagged tag words ∧ arguments = words ++ rest := by
  unfold optionalTag at read
  split at read
  · cases read
    exact ⟨[], .omitted, rfl⟩
  · rename_i word behind
    split at read
    · rename_i named
      split at read
      · cases read
      · obtain ⟨written, spelled, read⟩ := bind_eq_ok.mp read
        cases read
        obtain rfl := text_eq_ok_iff.mp spelled
        exact ⟨_, .written named, rfl⟩
    · cases read
      exact ⟨[], .omitted, rfl⟩

theorem optionalTag_of_tagged {tag : String} (tagged : Tagged tag words) (opens : Opens later rest)
    (apart : Apart "TAG" later) :
    optionalTag (words ++ rest) = .ok (tag, rest) := by
  cases tagged with
  | omitted =>
      obtain ⟨word, behind, rfl, other⟩ := opens.closed apart
      simp only [List.nil_append, optionalTag, other, Bool.false_eq_true, if_false]
  | written named =>
      simp only [List.cons_append, List.nil_append, optionalTag, named, if_true]
      exact bind_eq_ok.mpr ⟨tag, text_eq_ok_iff.mpr rfl, rfl⟩

theorem device_eq_ok_iff {argument : Bytes} {device : Device} :
    Command.device argument = .ok device ↔
      ∃ name, argument = Text.encode name ∧ Device.ofText? name = some device := by
  constructor
  · intro read
    obtain ⟨name, spelled, read⟩ := bind_eq_ok.mp read
    split at read
    · rename_i known
      cases read
      exact ⟨name, text_eq_ok_iff.mp spelled, known⟩
    · cases read
  · rintro ⟨name, rfl, known⟩
    refine bind_eq_ok.mpr ⟨name, text_eq_ok_iff.mpr rfl, ?_⟩
    rw [known]
    rfl

/-! ### Policies -/

inductive Sized (keyword : String) : Nat → List Bytes → Prop
  | omitted : Sized keyword 0 []
  | written {word digits : Bytes} {n : Nat} (named : Text.isKeyword word keyword = true)
      (counted : Decimal.nonNegative? digits = some n) : Sized keyword n [word, digits]

theorem Sized.opens (sized : Sized keyword n words) (opens : Opens later rest) :
    Opens (keyword :: later) (words ++ rest) := by
  cases sized with
  | omitted => exact opens.behind
  | written named counted => exact .here named

theorem Sized.fits (sized : Sized keyword n words) : (n : Int) < signedLimit := by
  cases sized with
  | omitted => decide
  | written named counted => exact Decimal.lt_of_nonNegative counted

theorem sized_of_optionalSize {size : Option Nat}
    (read : optionalSize keyword arguments = .ok (size, rest)) :
    ∃ words, Sized keyword (size.getD 0) words ∧ arguments = words ++ rest := by
  unfold optionalSize at read
  split at read
  · cases read
    exact ⟨[], .omitted, rfl⟩
  · split at read
    · rename_i named
      split at read
      · cases read
      · split at read
        · rename_i counted
          cases read
          exact ⟨_, .written named counted, rfl⟩
        · cases read
    · cases read
      exact ⟨[], .omitted, rfl⟩

theorem optionalSize_of_sized (sized : Sized keyword n words) (opens : Opens later rest)
    (apart : Apart keyword later) :
    ∃ size, optionalSize keyword (words ++ rest) = .ok (size, rest) ∧ size.getD 0 = n := by
  cases sized with
  | omitted =>
      obtain ⟨word, behind, rfl, other⟩ := opens.closed apart
      refine ⟨none, ?_, rfl⟩
      simp only [List.nil_append, optionalSize, other, Bool.false_eq_true, if_false]
  | written named counted =>
      refine ⟨some n, ?_, rfl⟩
      simp only [List.cons_append, List.nil_append, optionalSize, named, counted, if_true]

structure Policed (policy : BatchPolicy) (batchSize minBatchSize minBatchTimeout : List Bytes) :
    Prop where
  batchSize : Sized "BATCHSIZE" policy.batchSize batchSize
  minBatchSize : Sized "MINBATCHSIZE" policy.minBatchSize minBatchSize
  minBatchTimeout : Sized "MINBATCHTIMEOUT" policy.minBatchTimeout minBatchTimeout

theorem policed_of_batchPolicy {policy : BatchPolicy}
    (read : batchPolicy arguments = .ok (policy, rest)) :
    policy.Stepped ∧ ∃ batchSize minBatchSize minBatchTimeout,
      Policed policy batchSize minBatchSize minBatchTimeout ∧
        arguments = batchSize ++ (minBatchSize ++ (minBatchTimeout ++ rest)) := by
  obtain ⟨⟨first, afterFirst⟩, firstRead, read⟩ := bind_eq_ok.mp read
  obtain ⟨⟨second, afterSecond⟩, secondRead, read⟩ := bind_eq_ok.mp read
  dsimp only at read
  split at read
  · cases read
  · rename_i sizeThere
    obtain ⟨⟨third, afterThird⟩, thirdRead, read⟩ := bind_eq_ok.mp read
    dsimp only at read
    split at read
    · cases read
    · rename_i minimumThere
      cases read
      obtain ⟨batchSize, firstSized, rfl⟩ := sized_of_optionalSize firstRead
      obtain ⟨minBatchSize, secondSized, rfl⟩ := sized_of_optionalSize secondRead
      obtain ⟨minBatchTimeout, thirdSized, rfl⟩ := sized_of_optionalSize thirdRead
      refine ⟨⟨?_, ?_, firstSized.fits, secondSized.fits, thirdSized.fits⟩, _, _, _,
        ⟨firstSized, secondSized, thirdSized⟩, rfl⟩
      · intro zero
        dsimp only at zero ⊢
        omega
      · intro zero
        dsimp only at zero ⊢
        omega

theorem batchPolicy_of_policed {policy : BatchPolicy}
    {batchSize minBatchSize minBatchTimeout : List Bytes} (stepped : policy.Stepped)
    (policed : Policed policy batchSize minBatchSize minBatchTimeout)
    (opens : Opens ["INPUTS", "BLOB"] rest) :
    batchPolicy (batchSize ++ (minBatchSize ++ (minBatchTimeout ++ rest))) =
      .ok (policy, rest) := by
  -- From the back to the front, since each number is told by what may stand behind it.
  have opensThird := policed.minBatchTimeout.opens opens
  have opensSecond := policed.minBatchSize.opens opensThird
  obtain ⟨first, firstRead, firstSize⟩ :=
    optionalSize_of_sized policed.batchSize opensSecond (by decide +kernel)
  obtain ⟨second, secondRead, secondSize⟩ :=
    optionalSize_of_sized policed.minBatchSize opensThird (by decide +kernel)
  obtain ⟨third, thirdRead, thirdSize⟩ :=
    optionalSize_of_sized policed.minBatchTimeout opens (by decide +kernel)
  refine bind_eq_ok.mpr ⟨_, firstRead, bind_eq_ok.mpr ⟨_, secondRead, ?_⟩⟩
  dsimp only
  rw [firstSize, secondSize, if_neg]
  · refine bind_eq_ok.mpr ⟨_, thirdRead, ?_⟩
    dsimp only
    rw [thirdSize, if_neg]
    · rfl
    · have follows := stepped.minBatchTimeout
      omega
  · have follows := stepped.minBatchSize
    omega

/-! ### Graph nodes -/

inductive Counted (keyword : String) (names : List String) : List Bytes → Prop
  | written {word count : Bytes} (named : Text.isKeyword word keyword = true)
      (counted : Decimal.positive? count = some names.length) :
      Counted keyword names (word :: count :: names.map Text.encode)

/-- The graph nodes of a model as they are written: those of both sides, or none at all. -/
inductive Noded : List String → List String → List Bytes → Prop
  | unnamed : Noded [] [] []
  | named {inputs outputs : List String} {front back : List Bytes}
      (first : Counted "INPUTS" inputs front) (second : Counted "OUTPUTS" outputs back) :
      Noded inputs outputs (front ++ back)

theorem Noded.opens {inputs outputs : List String} (noded : Noded inputs outputs words)
    (opens : Opens later rest) : Opens ("INPUTS" :: later) (words ++ rest) := by
  cases noded with
  | unnamed => exact opens.behind
  | named first second =>
      cases first with
      | written named counted => exact .here named

theorem nodeNames_eq_ok_iff {side : Side} :
    nodeNames side arguments = .ok (names, rest) ↔
      ∃ count, Decimal.positive? count = some names.length ∧
        arguments = count :: (names.map Text.encode ++ rest) := by
  constructor
  · intro read
    unfold nodeNames at read
    split at read
    · cases read
    · rename_i digits behind
      split at read
      · cases read
      · rename_i count counted
        split at read
        · cases read
        · rename_i taken after cut
          obtain ⟨listed, spelled, read⟩ := bind_eq_ok.mp read
          cases read
          obtain ⟨rfl, rfl⟩ := take?_texts_iff.mp ⟨_, cut, spelled⟩
          exact ⟨digits, counted, rfl⟩
  · rintro ⟨count, counted, rfl⟩
    obtain ⟨taken, cut, listed⟩ := take?_texts_iff.mpr ⟨Eq.refl names.length, Eq.refl (_ ++ rest)⟩
    simp only [nodeNames, counted, cut]
    exact bind_eq_ok.mpr ⟨names, listed, rfl⟩

theorem Counted.several (counted : Counted keyword names words) : names ≠ [] := by
  cases counted with
  | written _ count => exact List.length_pos_iff.mp (Decimal.positive?_eq_some_iff.mp count).1

theorem Counted.reads (counted : Counted keyword names words) :
    ∃ word behind, words = word :: behind ∧ Text.isKeyword word keyword = true ∧
      ∀ side rest, nodeNames side (behind ++ rest) = .ok (names, rest) := by
  cases counted with
  | written named count =>
      refine ⟨_, _, rfl, named, fun side rest => ?_⟩
      exact nodeNames_eq_ok_iff.mpr ⟨_, count, List.cons_append ..⟩

theorem noded_of_nodeScopes {backend : BackendKind} {inputs outputs : List String}
    (read : nodeScopes backend arguments = .ok (inputs, outputs, rest)) :
    (backend = .tf → inputs ≠ [] ∧ outputs ≠ []) ∧
      (backend ≠ .tf → inputs = [] ∧ outputs = []) ∧
      ∃ words, Noded inputs outputs words ∧ arguments = words ++ rest := by
  unfold nodeScopes at read
  split at read
  · cases read
  · rename_i first behind
    split at read
    · rename_i needed
      obtain rfl := BackendKind.needsNodeNames_iff.mp needed
      split at read
      · cases read
      · rename_i firstNamed
        obtain ⟨⟨front, afterFront⟩, frontRead, read⟩ := bind_eq_ok.mp read
        dsimp only at read
        split at read
        · cases read
        · rename_i second afterSecond
          split at read
          · cases read
          · rename_i secondNamed
            obtain ⟨⟨back, afterBack⟩, backRead, read⟩ := bind_eq_ok.mp read
            dsimp only at read
            split at read
            · cases read
            · cases read
              rw [Bool.not_eq_true', Bool.not_eq_false] at firstNamed secondNamed
              obtain ⟨firstCount, firstCounted, rfl⟩ := nodeNames_eq_ok_iff.mp frontRead
              obtain ⟨secondCount, secondCounted, rfl⟩ := nodeNames_eq_ok_iff.mp backRead
              have frontThere : Counted "INPUTS" inputs _ := .written firstNamed firstCounted
              have backThere : Counted "OUTPUTS" outputs _ := .written secondNamed secondCounted
              refine ⟨fun _ => ⟨frontThere.several, backThere.several⟩,
                fun other => absurd rfl other, _, .named frontThere backThere, ?_⟩
              simp only [List.cons_append, List.append_assoc]
    · rename_i unneeded
      have other : backend ≠ .tf := fun same => unneeded (BackendKind.needsNodeNames_iff.mpr same)
      split at read
      · cases read
      · cases read
        exact ⟨fun same => absurd same other, fun _ => ⟨rfl, rfl⟩, [], .unnamed, rfl⟩

theorem nodeScopes_of_noded {backend : BackendKind} {inputs outputs : List String}
    (noded : Noded inputs outputs words) (named : backend = .tf → inputs ≠ [] ∧ outputs ≠ [])
    (unnamed : backend ≠ .tf → inputs = [] ∧ outputs = []) (opens : Opens ["BLOB"] rest) :
    nodeScopes backend (words ++ rest) = .ok (inputs, outputs, rest) := by
  cases noded with
  | unnamed =>
      have unneeded : backend.needsNodeNames = false :=
        Bool.eq_false_iff.mpr fun needed =>
          (named (BackendKind.needsNodeNames_iff.mp needed)).1 rfl
      have apart : Apart "INPUTS" ["BLOB"] := by decide +kernel
      obtain ⟨word, behind, rfl, other⟩ := opens.closed apart
      simp only [List.nil_append, nodeScopes, unneeded, other, Bool.false_eq_true, if_false]
  | named first second =>
      have needed : backend.needsNodeNames = true := by
        apply BackendKind.needsNodeNames_iff.mpr
        by_contra other
        exact first.several (unnamed other).1
      obtain ⟨firstWord, front, rfl, firstNamed, frontRead⟩ := first.reads
      obtain ⟨secondWord, back, rfl, secondNamed, backRead⟩ := second.reads
      obtain ⟨word, behind, rfl, _⟩ := opens
      have there : (word :: behind).isEmpty = false := rfl
      simp only [List.cons_append, List.append_assoc, nodeScopes, needed, firstNamed, Bool.not_true,
        Bool.false_eq_true, if_false, if_true]
      refine bind_eq_ok.mpr ⟨_, frontRead .input _, ?_⟩
      simp only [secondNamed, Bool.not_true, Bool.false_eq_true, if_false]
      refine bind_eq_ok.mpr ⟨_, backRead .output _, ?_⟩
      simp only [there, Bool.false_eq_true, if_false]
      rfl

/-! ### Chunks -/

theorem blobOfChunks_eq_ok_iff {blob : Bytes} :
    blobOfChunks arguments = .ok blob ↔ ∃ word chunks, Text.isKeyword word "BLOB" = true ∧
      chunks ≠ [] ∧ blob = chunks.flatten ∧ arguments = word :: chunks := by
  constructor
  · intro read
    unfold blobOfChunks at read
    split at read
    · cases read
    · rename_i word chunks
      split at read
      · cases read
      · rename_i named
        split at read
        · cases read
        · rename_i several
          cases read
          rw [Bool.not_eq_true', Bool.not_eq_false] at named
          exact ⟨word, chunks, named, fun empty => several (List.isEmpty_iff.mpr empty), rfl, rfl⟩
  · rintro ⟨word, chunks, named, several, rfl, rfl⟩
    have there : chunks.isEmpty = false := Bool.eq_false_iff.mpr fun empty =>
      several (List.isEmpty_iff.mp empty)
    simp only [blobOfChunks, named, there, Bool.not_true, Bool.false_eq_true, if_false]

/-! ### Commands -/

namespace ModelStore

/-- The command for a definition, whatever stands in place of its own name. -/
inductive Written (key : String) (definition : ModelDefinition) (chunks : List Bytes) :
    List Bytes → Prop
  | command {command backend blob : Bytes} {device : String}
      {tag batchSize minBatchSize minBatchTimeout nodes : List Bytes}
      (backendNamed : Text.isKeyword backend definition.backend.name = true)
      (deviceNamed : Device.ofText? device = some definition.device)
      (tagged : Tagged definition.tag tag)
      (policed : Policed definition.policy batchSize minBatchSize minBatchTimeout)
      (noded : Noded definition.inputs definition.outputs nodes)
      (blobNamed : Text.isKeyword blob "BLOB" = true) :
      Written key definition chunks
        (command :: Text.encode key :: backend :: Text.encode device ::
          (tag ++ (batchSize ++ (minBatchSize ++ (minBatchTimeout ++
            (nodes ++ blob :: chunks))))))

variable {key command : String} {definition : ModelDefinition} {chunks : List Bytes}

theorem written_of_ofArguments {stored : ModelStore}
    (read : ofArguments command arguments = .ok stored) :
    stored.definition.Consistent ∧ ∃ chunks, chunks ≠ [] ∧ stored.blob = chunks.flatten ∧
      Written stored.key stored.definition chunks arguments := by
  unfold ofArguments at read
  split at read
  · split at read
    · cases read
    · obtain ⟨key, spelled, read⟩ := bind_eq_ok.mp read
      split at read
      · cases read
      · rename_i backend known
        obtain ⟨device, deviceRead, read⟩ := bind_eq_ok.mp read
        obtain ⟨⟨tag, afterTag⟩, tagRead, read⟩ := bind_eq_ok.mp read
        obtain ⟨⟨policy, afterPolicy⟩, policyRead, read⟩ := bind_eq_ok.mp read
        obtain ⟨⟨inputs, outputs, afterScopes⟩, scopesRead, read⟩ := bind_eq_ok.mp read
        obtain ⟨blob, blobRead, read⟩ := bind_eq_ok.mp read
        cases read
        obtain rfl := text_eq_ok_iff.mp spelled
        obtain ⟨deviceText, rfl, deviceNamed⟩ := device_eq_ok_iff.mp deviceRead
        obtain ⟨tagWords, tagged, rfl⟩ := tagged_of_optionalTag tagRead
        obtain ⟨stepped, _, _, _, policed, rfl⟩ := policed_of_batchPolicy policyRead
        obtain ⟨named, unnamed, nodes, noded, rfl⟩ := noded_of_nodeScopes scopesRead
        obtain ⟨word, chunks, blobNamed, several, rfl, rfl⟩ := blobOfChunks_eq_ok_iff.mp blobRead
        exact ⟨⟨stepped, named, unnamed⟩, chunks, several, rfl,
          .command (BackendKind.ofName?_eq_some_iff.mp known) deviceNamed tagged policed noded
            blobNamed⟩
  · cases read

theorem ofArguments_of_written (consistent : definition.Consistent) (several : chunks ≠ [])
    (written : Written key definition chunks arguments) :
    ofArguments command arguments = .ok ⟨key, definition, chunks.flatten⟩ := by
  cases written with
  | command backendNamed deviceNamed tagged policed noded blobNamed =>
      rename_i name backend blob device tag batchSize minBatchSize minBatchTimeout nodes
      have opensBlob : Opens ["BLOB"] (blob :: chunks) := .here blobNamed
      have opensNodes := noded.opens opensBlob
      have opensPolicy := policed.batchSize.opens (policed.minBatchSize.opens
        (policed.minBatchTimeout.opens opensNodes))
      have tagRead := optionalTag_of_tagged tagged opensPolicy (by decide +kernel)
      have policyRead := batchPolicy_of_policed consistent.policy policed opensNodes
      have scopesRead :=
        nodeScopes_of_noded noded consistent.named consistent.unnamed opensBlob
      have blobRead := blobOfChunks_eq_ok_iff.mpr ⟨blob, chunks, blobNamed, several, rfl, rfl⟩
      have long : ¬ (tag ++ (batchSize ++ (minBatchSize ++ (minBatchTimeout ++
          (nodes ++ blob :: chunks))))).length < 2 := by
        have chunk := List.length_pos_iff.mpr several
        simp only [List.length_append, List.length_cons]
        omega
      unfold ofArguments
      dsimp only
      rw [if_neg long]
      refine bind_eq_ok.mpr ⟨key, text_eq_ok_iff.mpr rfl, ?_⟩
      rw [BackendKind.ofName?_eq_some_iff.mpr backendNamed]
      exact bind_eq_ok.mpr ⟨_, device_eq_ok_iff.mpr ⟨_, rfl, deviceNamed⟩,
        bind_eq_ok.mpr ⟨_, tagRead, bind_eq_ok.mpr ⟨_, policyRead,
          bind_eq_ok.mpr ⟨_, scopesRead, bind_eq_ok.mpr ⟨_, blobRead, rfl⟩⟩⟩⟩⟩

def sizeWords (keyword : String) (n : Nat) : List Bytes :=
  [Text.encode keyword, Text.encode (toString n)]

def nodeWords (keyword : String) (names : List String) : List Bytes :=
  Text.encode keyword :: Text.encode (toString names.length) :: names.map Text.encode

/-- The command with nothing left out, and keywords in capital letters. -/
def write (command : Bytes) (key : String) (definition : ModelDefinition) (chunks : List Bytes) :
    List Bytes :=
  let nodes :=
    if definition.backend = .tf then
      nodeWords "INPUTS" definition.inputs ++ nodeWords "OUTPUTS" definition.outputs
    else []
  command :: Text.encode key :: Text.encode definition.backend.name ::
    Text.encode definition.device.text ::
      ([Text.encode "TAG", Text.encode definition.tag] ++
        (sizeWords "BATCHSIZE" definition.policy.batchSize ++
          (sizeWords "MINBATCHSIZE" definition.policy.minBatchSize ++
            (sizeWords "MINBATCHTIMEOUT" definition.policy.minBatchTimeout ++
              (nodes ++ Text.encode "BLOB" :: chunks)))))

theorem sized_sizeWords (fits : (n : Int) < signedLimit) :
    Sized keyword n (sizeWords keyword n) :=
  .written (Text.isKeyword_encode keyword) (Decimal.nonNegative?_text fits)

theorem counted_nodeWords (several : names ≠ []) (fits : (names.length : Int) < signedLimit) :
    Counted keyword names (nodeWords keyword names) :=
  .written (Text.isKeyword_encode keyword)
    (Decimal.positive?_text (List.length_pos_iff.mpr several) fits)

theorem written_write (consistent : definition.Consistent) (numbered : definition.device.Numbered)
    (inputsFit : (definition.inputs.length : Int) < signedLimit)
    (outputsFit : (definition.outputs.length : Int) < signedLimit) (command : Bytes) :
    Written key definition chunks (write command key definition chunks) := by
  obtain ⟨stepped, named, unnamed⟩ := consistent
  refine .command (Text.isKeyword_encode _) (Device.ofText?_text numbered)
    (.written (Text.isKeyword_encode "TAG"))
    ⟨sized_sizeWords stepped.batchSizeFits, sized_sizeWords stepped.minBatchSizeFits,
      sized_sizeWords stepped.minBatchTimeoutFits⟩ ?_ (Text.isKeyword_encode "BLOB")
  by_cases graph : definition.backend = .tf
  · rw [if_pos graph]
    exact .named (counted_nodeWords (named graph).1 inputsFit)
      (counted_nodeWords (named graph).2 outputsFit)
  · rw [if_neg graph, (unnamed graph).1, (unnamed graph).2]
    exact .unnamed

/-- The command that stores a model is accepted exactly if it is written for a consistent
definition, and then it gives this one, with its key and its chunks joined. There is a command for
every consistent definition whose numbers have a text. -/
theorem accepts_exactly_consistent (command : String) :
    (∀ arguments stored, ofArguments command arguments = .ok stored ↔
      stored.definition.Consistent ∧ ∃ chunks, chunks ≠ [] ∧ stored.blob = chunks.flatten ∧
        Written stored.key stored.definition chunks arguments) ∧
    ∀ name key definition chunks, definition.Consistent → definition.device.Numbered →
      (definition.inputs.length : Int) < signedLimit →
      (definition.outputs.length : Int) < signedLimit →
      Written key definition chunks (write name key definition chunks) := by
  refine ⟨fun arguments stored => ⟨written_of_ofArguments, ?_⟩, ?_⟩
  · rintro ⟨consistent, chunks, several, joined, written⟩
    obtain ⟨key, definition, blob⟩ := stored
    obtain rfl : blob = chunks.flatten := joined
    exact ofArguments_of_written consistent several written
  · intro name key definition chunks consistent numbered inputsFit outputsFit
    exact written_write consistent numbered inputsFit outputsFit name

end ModelStore

end Command

namespace Sample

/-- A graph whose tag and whose nodes are named like keywords. -/
def graph : ModelDefinition :=
  ⟨.tf, ⟨.gpu, some 1⟩, "BATCHSIZE", ["OUTPUTS", "BLOB"], ["INPUTS"], ⟨8, 0, 0⟩⟩

def graphCommand : List Bytes :=
  ["ai.modelstore", "g", "tf", "gpu:01", "tag", "BATCHSIZE", "batchsize", "+8", "Inputs", "2",
    "OUTPUTS", "BLOB", "outputs", "01", "INPUTS", "blob", "BLOB", "", "x"].map Text.encode

theorem consistent_graph : graph.Consistent := by
  refine ⟨⟨?_, ?_, ?_, ?_, ?_⟩, ?_, ?_⟩ <;> decide

theorem written_graphCommand : Command.ModelStore.Written "g" graph
    (["BLOB", "", "x"].map Text.encode) graphCommand := by
  have policed : Command.Policed graph.policy (["batchsize", "+8"].map Text.encode) [] [] :=
    ⟨.written (by decide +kernel) (by decide +kernel), .omitted, .omitted⟩
  have inputs : Command.Counted "INPUTS" graph.inputs
      (["Inputs", "2", "OUTPUTS", "BLOB"].map Text.encode) :=
    .written (by decide +kernel) (by decide +kernel)
  have outputs : Command.Counted "OUTPUTS" graph.outputs
      (["outputs", "01", "INPUTS"].map Text.encode) :=
    .written (by decide +kernel) (by decide +kernel)
  have device : Device.ofText? "gpu:01" = some graph.device := by decide +kernel
  exact .command (by decide +kernel) device (.written (by decide +kernel)) policed
    (.named inputs outputs) (by decide +kernel)

end Sample

/-- A graph is stored by a command with words left out, and by the command in full. -/
theorem Command.ModelStore.accepts_graph :
    ofArguments "AI.MODELSTORE" Sample.graphCommand =
        .ok ⟨"g", Sample.graph, Text.encode "BLOBx"⟩ ∧
      Written "g" Sample.graph [[]]
        (write (Text.encode "AI.MODELSET") "g" Sample.graph [[]]) := by
  obtain ⟨accepts, written⟩ := accepts_exactly_consistent "AI.MODELSTORE"
  refine ⟨(accepts _ _).mpr ⟨Sample.consistent_graph, _, List.cons_ne_nil _ _, ?_,
    Sample.written_graphCommand⟩, written _ _ _ _ Sample.consistent_graph ?_ ?_ ?_⟩
  · decide +kernel
  · rintro index same
    cases same
    decide
  · decide
  · decide

end InferenceStore
