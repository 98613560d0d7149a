import InferenceStore.Proofs.Command.Arguments
import InferenceStore.Proofs.Dag.Grammar

/-
The clauses that open a command which runs a graph. How a clause is spelled is said without a
reader: a keyword in any case, then a count and so many keys, or one value. Keys may look like
keywords, as their count alone says where they end. The reader takes exactly such clauses off the
front, each kind once and only those that the flavor has, up to the first separator.
-/

namespace InferenceStore

open Command Outcome

/-- A part of a command: what it says and the words that say it. -/
structure Phrase (α : Type) where
  meaning : α
  words : List Bytes

namespace Dag

inductive Clause where
  | load (keys : List String)
  | persist (keys : List String)
  | routing (key : String)
  | timeout (milliseconds : Nat)

namespace Clause

def kind : Clause → DagClause
  | .load _ => .load
  | .persist _ => .persist
  | .routing _ => .routing
  | .timeout _ => .timeout

/-- What stands behind the keyword of a clause. No key is the separator, whatever else it is. -/
inductive Body : Clause → List Bytes → Prop
  | load {count : Bytes} {keys : List String}
      (counted : Decimal.positive? count = some keys.length) (apart : "|>" ∉ keys) :
      Body (.load keys) (count :: keys.map Text.encode)
  | persist {count : Bytes} {keys : List String}
      (counted : Decimal.positive? count = some keys.length) (apart : "|>" ∉ keys)
      (distinct : keys.Nodup) :
      Body (.persist keys) (count :: keys.map Text.encode)
  | routing {key : String} (apart : key ≠ "|>") : Body (.routing key) [Text.encode key]
  | timeout {value : Bytes} {milliseconds : Nat}
      (positive : Decimal.positive? value = some milliseconds) :
      Body (.timeout milliseconds) [value]

def Spelled (clause : Clause) (words : List Bytes) : Prop :=
  ∃ keyword body, words = keyword :: body ∧
    Text.isKeyword keyword clause.kind.keyword = true ∧ clause.Body body

/-- Read-only graphs persist nothing, deprecated ones have no routing. -/
def Allowed (flavor : DagFlavor) (clause : Clause) : Prop :=
  (clause.kind = .persist → flavor.isReadOnly = false) ∧
    (clause.kind = .routing → flavor.isDeprecated = false)

def enter (dag : Dag) : Clause → Dag
  | .load keys => { dag with load := keys }
  | .persist keys => { dag with persist := keys }
  | .routing key => { dag with routing := some key }
  | .timeout milliseconds => { dag with timeout := some milliseconds }

/-- Clauses as they may stand together in one command. -/
structure Listed (flavor : DagFlavor) (clauses : List (Phrase Clause)) : Prop where
  spelled : ∀ clause ∈ clauses, clause.meaning.Spelled clause.words
  allowed : ∀ clause ∈ clauses, clause.meaning.Allowed flavor
  once : (clauses.map fun clause => clause.meaning.kind).Nodup

end Clause

/-! ### Reading clauses -/

variable {flavor : DagFlavor} {keyspace : Keyspace} {dag extended : Dag} {kind : DagClause}
  {arguments rest : List Bytes}

theorem firstOccurrences_eq_iff {names : List String} :
    firstOccurrences names = names ↔ names.Nodup := by
  constructor
  · intro same
    exact same ▸ nodup_firstOccurrences names
  · intro distinct
    induction names with
    | nil => rfl
    | cons name others ih =>
        obtain ⟨absent, behind⟩ := List.nodup_cons.mp distinct
        have kept : others.filter (· != name) = others :=
          List.filter_eq_self.mpr fun other member =>
            bne_iff_ne.mpr (ne_of_mem_of_not_mem member absent)
        rw [firstOccurrences, ih behind, kept]

theorem keyList_eq_ok_iff {keyword : String} {mismatch : DagFault} {names : List String} :
    keyList keyword mismatch arguments = .ok (names, rest) ↔
      ∃ count, Decimal.positive? count = some names.length ∧ "|>" ∉ names ∧
        arguments = count :: names.map Text.encode ++ rest := by
  constructor
  · intro read
    unfold keyList at read
    split at read
    · cases read
    · rename_i count behind
      split at read
      · cases read
      · rename_i number counted
        split at read
        · cases read
        · rename_i keys others cut
          split at read
          · cases read
          · rename_i apart
            split at read
            · cases read
            · rename_i listed
              cases read
              obtain ⟨length, rfl⟩ := take?_eq_some_iff.mp cut
              obtain rfl := texts_eq_ok_iff.mp listed
              rw [List.length_map] at length
              exact ⟨count, length ▸ counted, any_isChain_iff.mp (Bool.eq_false_iff.mpr apart), rfl⟩
  · rintro ⟨count, counted, apart, rfl⟩
    have cut : take? names.length (names.map Text.encode ++ rest) =
        some (names.map Text.encode, rest) :=
      take?_eq_some_iff.mpr ⟨List.length_map .., rfl⟩
    have listed : texts (names.map Text.encode) = .ok names := texts_eq_ok_iff.mpr rfl
    simp only [keyList, List.cons_append, counted, cut, any_isChain_iff.mpr apart, listed,
      Bool.false_eq_true, if_false]

theorem clauseValue_eq_ok_iff {missing : DagFault} {value : Bytes} :
    clauseValue missing arguments = .ok (value, rest) ↔
      value ≠ chain ∧ arguments = value :: rest := by
  constructor
  · intro read
    unfold clauseValue at read
    split at read
    · cases read
    · split at read
      · cases read
      · rename_i apart
        cases read
        exact ⟨not_isChain_iff.mp (Bool.eq_false_iff.mpr apart), rfl⟩
  · rintro ⟨apart, rfl⟩
    simp only [clauseValue, not_isChain_iff.mpr apart, Bool.false_eq_true, if_false]

theorem not_positive_chain : Decimal.positive? chain = none := by decide +kernel

theorem readClause_eq_ok_iff :
    readClause flavor dag kind arguments = .ok (extended, rest) ↔
      ∃ (clause : Clause) (body : List Bytes), clause.kind = kind ∧
        (kind = .persist → flavor.isReadOnly = false) ∧ clause.Body body ∧
          arguments = body ++ rest ∧ clause.enter dag = extended := by
  constructor
  · intro read
    cases kind with
    | load =>
        obtain ⟨⟨keys, behind⟩, listed, read⟩ := bind_eq_ok.mp read
        cases read
        obtain ⟨count, counted, apart, rfl⟩ := keyList_eq_ok_iff.mp listed
        exact ⟨.load keys, _, rfl, nofun, .load counted apart, rfl, rfl⟩
    | persist =>
        unfold readClause at read
        dsimp only at read
        split at read
        · cases read
        · rename_i writes
          obtain ⟨⟨keys, behind⟩, listed, read⟩ := bind_eq_ok.mp read
          dsimp only at read
          split at read
          · rename_i distinct
            cases read
            obtain ⟨count, counted, apart, rfl⟩ := keyList_eq_ok_iff.mp listed
            exact ⟨.persist keys, _, rfl, fun _ => Bool.eq_false_iff.mpr writes,
              .persist counted apart (firstOccurrences_eq_iff.mp distinct), rfl, rfl⟩
          · cases read
    | routing =>
        obtain ⟨⟨value, behind⟩, single, read⟩ := bind_eq_ok.mp read
        obtain ⟨key, named, read⟩ := bind_eq_ok.mp read
        cases read
        obtain ⟨apart, rfl⟩ := clauseValue_eq_ok_iff.mp single
        obtain rfl := text_eq_ok_iff.mp named
        exact ⟨.routing key, _, rfl, nofun, .routing fun same => apart (same ▸ rfl), rfl, rfl⟩
    | timeout =>
        obtain ⟨⟨value, behind⟩, single, read⟩ := bind_eq_ok.mp read
        obtain ⟨milliseconds, positive, read⟩ := bind_eq_ok.mp read
        cases read
        obtain ⟨apart, rfl⟩ := clauseValue_eq_ok_iff.mp single
        exact ⟨.timeout milliseconds, _, rfl, nofun, .timeout (timeout_eq_ok_iff.mp positive), rfl,
          rfl⟩
  · rintro ⟨clause, body, rfl, allowed, spelled, rfl, rfl⟩
    cases spelled with
    | @load count keys counted apart =>
        exact bind_eq_ok.mpr ⟨(keys, rest), keyList_eq_ok_iff.mpr ⟨count, counted, apart, rfl⟩, rfl⟩
    | @persist count keys counted apart distinct =>
        have listed : keyList "PERSIST" .persistKeys (count :: keys.map Text.encode ++ rest) =
            .ok (keys, rest) := keyList_eq_ok_iff.mpr ⟨count, counted, apart, rfl⟩
        simp only [readClause, Clause.kind, allowed rfl, listed, Bool.false_eq_true, if_false, bind,
          Except.bind, if_pos (firstOccurrences_eq_iff.mpr distinct), pure, Except.pure,
          Clause.enter]
    | @routing key apart =>
        have single : clauseValue .missingRouting (Text.encode key :: rest) =
            .ok (Text.encode key, rest) :=
          clauseValue_eq_ok_iff.mpr ⟨fun same => apart (Text.encode_injective same), rfl⟩
        exact bind_eq_ok.mpr ⟨_, single, bind_eq_ok.mpr ⟨key, text_eq_ok_iff.mpr rfl, rfl⟩⟩
    | @timeout value milliseconds positive =>
        have apart : value ≠ chain := by
          intro same
          rw [same, not_positive_chain] at positive
          cases positive
        have single : clauseValue .missingTimeout (value :: rest) = .ok (value, rest) :=
          clauseValue_eq_ok_iff.mpr ⟨apart, rfl⟩
        exact bind_eq_ok.mpr ⟨_, single,
          bind_eq_ok.mpr ⟨milliseconds, timeout_eq_ok_iff.mpr positive, rfl⟩⟩

theorem keyword_injective {left right : DagClause}
    (same : (Text.encode left.keyword).map Text.lowerByte =
      (Text.encode right.keyword).map Text.lowerByte) : left = right := by
  revert same
  cases left <;> cases right <;> decide +kernel

theorem ofKeyword?_eq_some_iff {argument : Bytes} :
    DagClause.ofKeyword? flavor argument = some kind ↔
      Text.isKeyword argument kind.keyword = true ∧
        (kind = .routing → flavor.isDeprecated = false) := by
  have suits (other : DagClause) :
      (Text.isKeyword argument other.keyword && !(other == .routing && flavor.isDeprecated)) =
        true ↔ Text.isKeyword argument other.keyword = true ∧
          (other = .routing → flavor.isDeprecated = false) := by
    cases other <;> simp [DagClause.keyword]
  constructor
  · intro found
    have suited := List.find?_some found
    exact (suits kind).mp suited
  · intro named
    cases found : DagClause.ofKeyword? flavor argument with
    | none =>
        have listed : kind ∈ DagClause.all := by cases kind <;> decide
        exact absurd ((suits kind).mpr named) (List.find?_eq_none.mp found kind listed)
    | some other =>
        have suited := List.find?_some found
        have known := ((suits other).mp suited).1
        rw [keyword_injective (Text.isKeyword_unique known named.1)]

theorem not_keyword_chain (kind : DagClause) : Text.isKeyword chain kind.keyword = false := by
  cases kind <;> decide +kernel

namespace Clause

variable {clauses : List (Phrase Clause)}

theorem Listed.nil (flavor : DagFlavor) : Listed flavor [] := ⟨nofun, nofun, List.nodup_nil⟩

theorem listed_cons {clause : Phrase Clause} : Listed flavor (clause :: clauses) ↔
    clause.meaning.Spelled clause.words ∧ clause.meaning.Allowed flavor ∧
      (∀ other ∈ clauses, other.meaning.kind ≠ clause.meaning.kind) ∧ Listed flavor clauses := by
  constructor
  · rintro ⟨spelled, allowed, once⟩
    obtain ⟨spelled, spelledBehind⟩ := List.forall_mem_cons.mp spelled
    obtain ⟨allowed, allowedBehind⟩ := List.forall_mem_cons.mp allowed
    obtain ⟨absent, onceBehind⟩ := List.nodup_cons.mp once
    refine ⟨spelled, allowed, ?_, spelledBehind, allowedBehind, onceBehind⟩
    exact fun other member same => absent (List.mem_map.mpr ⟨other, member, same⟩)
  · rintro ⟨spelled, allowed, apart, listed⟩
    refine ⟨List.forall_mem_cons.mpr ⟨spelled, listed.spelled⟩,
      List.forall_mem_cons.mpr ⟨allowed, listed.allowed⟩, List.nodup_cons.mpr ⟨?_, listed.once⟩⟩
    intro member
    obtain ⟨other, inClauses, same⟩ := List.mem_map.mp member
    exact apart other inClauses same

end Clause

/-- Clauses are read up to a separator or the end. -/
theorem readClauses_eq_ok_iff {seen : List DagClause} :
    readClauses flavor seen dag arguments = .ok (extended, rest) ↔
      ∃ clauses, Clause.Listed flavor clauses ∧
        (∀ clause ∈ clauses, clause.meaning.kind ∉ seen) ∧
        arguments = clauses.flatMap Phrase.words ++ rest ∧ (∀ first ∈ rest.head?, first = chain) ∧
        (clauses.map Phrase.meaning).foldl Clause.enter dag = extended := by
  constructor
  · intro read
    fun_induction readClauses flavor seen dag arguments with
    | case1 =>
        cases read
        have ended : ∀ first ∈ ([] : List Bytes).head?, first = chain := by
          intro first same
          cases same
        exact ⟨[], .nil flavor, List.forall_mem_nil _, rfl, ended, rfl⟩
    | case2 seen dag argument others separates =>
        cases read
        refine ⟨[], .nil flavor, List.forall_mem_nil _, rfl, ?_, rfl⟩
        intro first same
        exact Option.some.inj same ▸ isChain_iff.mp separates
    | case3 => cases read
    | case4 => cases read
    | case5 => cases read
    | case6 seen dag argument others _ kind known fresh next behind found ih =>
        obtain ⟨clauses, listed, unseen, rfl, opens, rfl⟩ := ih read
        obtain ⟨clause, body, rfl, writes, spelled, rfl, rfl⟩ := readClause_eq_ok_iff.mp found
        obtain ⟨named, routes⟩ := ofKeyword?_eq_some_iff.mp known
        have apart : ∀ other ∈ clauses, other.meaning.kind ≠ clause.kind :=
          fun other member same => unseen other member (same ▸ List.mem_cons_self ..)
        refine ⟨⟨clause, argument :: body⟩ :: clauses, Clause.listed_cons.mpr
          ⟨⟨argument, body, rfl, named, spelled⟩, ⟨writes, routes⟩, apart, listed⟩, ?_, ?_, opens,
          rfl⟩
        · refine List.forall_mem_cons.mpr ⟨?_, fun other member inSeen =>
            unseen other member (List.mem_cons_of_mem _ inSeen)⟩
          exact fun inSeen => fresh (List.contains_iff_mem.mpr inSeen)
        · simp
  · rintro ⟨clauses, listed, unseen, rfl, opens, rfl⟩
    induction clauses generalizing seen dag with
    | nil =>
        cases rest with
        | nil => simp [readClauses]
        | cons first behind =>
            have separates : isChain first = true := isChain_iff.mpr (opens first rfl)
            simp [readClauses, separates]
    | cons clause clauses ih =>
        obtain ⟨⟨keyword, body, spelled, named, content⟩, allowed, apart, listed⟩ :=
          Clause.listed_cons.mp listed
        obtain ⟨fresh, unseen⟩ := List.forall_mem_cons.mp unseen
        have unseenNow : ∀ other ∈ clauses, other.meaning.kind ∉ clause.meaning.kind :: seen := by
          intro other member inSeen
          rcases List.mem_cons.mp inSeen with same | before
          · exact apart other member same
          · exact unseen other member before
        have behind := @ih (clause.meaning.enter dag) (clause.meaning.kind :: seen) listed unseenNow
        have continues : isChain keyword = false := by
          refine not_isChain_iff.mpr fun same => ?_
          rw [same, not_keyword_chain] at named
          cases named
        have read : readClause flavor dag clause.meaning.kind
            (body ++ (clauses.flatMap Phrase.words ++ rest)) =
              .ok (clause.meaning.enter dag, clauses.flatMap Phrase.words ++ rest) :=
          readClause_eq_ok_iff.mpr ⟨clause.meaning, body, rfl, allowed.1, content, rfl, rfl⟩
        have known : DagClause.ofKeyword? flavor keyword = some clause.meaning.kind :=
          ofKeyword?_eq_some_iff.mpr ⟨named, allowed.2⟩
        have unrepeated : seen.contains clause.meaning.kind = false := by
          rw [← Bool.not_eq_true, List.contains_iff_mem]
          exact fresh
        rw [List.flatMap_cons, spelled, List.cons_append, List.cons_append, List.append_assoc,
          readClauses]
        simp only [continues, known, unrepeated, Bool.false_eq_true, if_false]
        split
        · rename_i failed
          rw [read] at failed
          cases failed
        · rename_i done
          rw [read] at done
          cases done
          exact behind

end Dag

end InferenceStore
