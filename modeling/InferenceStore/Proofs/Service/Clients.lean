import InferenceStore.Proofs.Dag.Course
import InferenceStore.Proofs.Dag.Start
import InferenceStore.Proofs.Service.History

/-
What a client does. Its own moments are its command, the results it goes on with, and the end of
its wait; nothing that others do changes its session. So what the first of these sees to and the
others keep holds of a client in every run.
-/

namespace InferenceStore

namespace Service

variable {store : Engine} {history : History} {service : Service} {client : Nat}
  {session : Session}

namespace History

theorem of_here {moment : Moment} (history : History) (own : moment.client? = some client) :
    History.of (history ++ [moment]) client = history.of client ++ [moment] := by
  simp [History.of, own]

theorem of_elsewhere {moment : Moment} (history : History) (other : moment.client? ≠ some client) :
    History.of (history ++ [moment]) client = history.of client := by
  simp [History.of, other]

end History

/-! ### Sessions -/

theorem clients_resume {execution : Execution} {giveUpAt : Nat} {result : Outcome (List Tensor)}
    (waits : service.clients[client]? = some (.waiting execution giveUpAt))
    (returned : service.engine.dispatcher.result? execution.request = some result) :
    service.resume client =
      ⟨(service.engine.resume execution result).1,
        service.clients.set client
          (.ofProgress giveUpAt (service.engine.resume execution result).2)⟩ := by
  unfold resume
  rw [waits]
  simp only [returned]

theorem resumes_of_permitted (permitted : service.permits (.resume client) = true) :
    ∃ execution giveUpAt result,
      service.clients[client]? = some (.waiting execution giveUpAt) ∧
        service.engine.dispatcher.result? execution.request = some result := by
  obtain ⟨session, found, ready⟩ := (Option.any_eq_true ..).mp permitted
  cases session with
  | waiting execution giveUpAt =>
      obtain ⟨result, returned⟩ := Option.isSome_iff_exists.mp ready
      exact ⟨execution, giveUpAt, result, found, returned⟩
  | answered reply => cases ready
  | gaveUp => cases ready

theorem waits_of_expire (permitted : service.permits (.expire client) = true) :
    ∃ execution giveUpAt, service.clients[client]? = some (.waiting execution giveUpAt) := by
  obtain ⟨session, found, due⟩ := (Option.any_eq_true ..).mp permitted
  cases session with
  | waiting execution giveUpAt => exact ⟨execution, giveUpAt, found⟩
  | answered reply => cases due
  | gaveUp => cases due

theorem waits_of_abandon (permitted : service.permits (.abandon client) = true) :
    ∃ execution giveUpAt, service.clients[client]? = some (.waiting execution giveUpAt) := by
  obtain ⟨session, found, waits⟩ := (Option.any_eq_true ..).mp permitted
  cases session with
  | waiting execution giveUpAt => exact ⟨execution, giveUpAt, found⟩
  | answered reply => cases waits
  | gaveUp => cases waits

theorem set_of_waiting {waiting after : Session} (found : service.clients[client]? = some waiting) :
    (service.clients.set client after)[client]? = some after :=
  List.getElem?_set_self (List.getElem?_eq_some_iff.mp found).1

theorem session_elsewhere {action : Action} (permitted : service.permits action = true)
    (other : Moment.client? ⟨service, action⟩ ≠ some client) :
    (service.after action).clients[client]? = service.clients[client]? := by
  have kept {acting : Nat} {session : Session} (apart : some acting ≠ some client) :
      (service.clients.set acting session)[client]? = service.clients[client]? :=
    List.getElem?_set_ne fun same => apart (congrArg some same)
  cases action with
  | command arguments giveUpAt =>
      have apart : service.clients.length ≠ client := fun same => other (congrArg some same)
      simp only [after]
      rcases Nat.lt_or_gt_of_ne apart with before | behind
      · have outside : service.clients[client]? = none :=
          List.getElem?_eq_none (Nat.le_of_lt before)
        rw [outside]
        apply List.getElem?_eq_none
        rw [List.length_append, List.length_singleton]
        exact before
      · exact List.getElem?_append_left behind
  | resume acting =>
      obtain ⟨execution, giveUpAt, result, waits, returned⟩ := resumes_of_permitted permitted
      simp only [after, clients_resume waits returned]
      exact kept other
  | expire acting => exact kept other
  | abandon acting => exact kept other
  | work event => rfl
  | reorder turns calls => rfl
  | host action => rfl

namespace Run

theorem before {earlier later : History} {moment : Moment}
    (run : Run store (earlier ++ moment :: later) service) :
    Run store earlier moment.before ∧ moment.before.permits moment.action = true := by
  generalize whole : earlier ++ moment :: later = history at run
  induction run generalizing later with
  | start => simp at whole
  | @step history service run action permitted ih =>
      rcases List.eq_nil_or_concat later with ended | ⟨front, last, rfl⟩
      · subst ended
        obtain ⟨rfl, same⟩ := List.append_inj' whole rfl
        cases same
        exact ⟨run, permitted⟩
      · have shifted : (earlier ++ moment :: front) ++ [last] =
            history ++ [⟨service, action⟩] := by
          simpa using whole
        exact ih (List.append_inj' shifted rfl).1

theorem of_eq_nil (run : Run store history service) (absent : service.clients[client]? = none) :
    history.of client = [] := by
  induction run with
  | start => rfl
  | @step history service run action permitted ih =>
      by_cases own : Moment.client? ⟨service, action⟩ = some client
      · cases action with
        | command arguments giveUpAt =>
            have last : service.clients.length = client := Option.some.inj own
            rw [← last] at absent
            simp only [Service.after] at absent
            rw [List.getElem?_append_right (Nat.le_refl _), Nat.sub_self] at absent
            cases absent
        | resume acting =>
            cases own
            obtain ⟨execution, giveUpAt, result, waits, returned⟩ := resumes_of_permitted permitted
            simp only [Service.after, clients_resume waits returned] at absent
            rw [set_of_waiting waits] at absent
            cases absent
        | expire acting =>
            cases own
            obtain ⟨execution, giveUpAt, waits⟩ := waits_of_expire permitted
            exact absurd ((set_of_waiting waits).symm.trans absent) nofun
        | abandon acting =>
            cases own
            obtain ⟨execution, giveUpAt, waits⟩ := waits_of_abandon permitted
            exact absurd ((set_of_waiting waits).symm.trans absent) nofun
        | _ => cases own
      · rw [History.of_elsewhere history own]
        exact ih ((session_elsewhere permitted own).symm.trans absent)

/-- What holds of a client behind its command, and is kept when it goes on with a result, when its
time is up, and when it gives up, holds of it in every run. -/
theorem on_client {motive : History → Session → Prop}
    (began : ∀ {history service arguments giveUpAt}, Run store history service →
      service.clients.length = client →
      motive [⟨service, .command arguments giveUpAt⟩]
        (.ofProgress giveUpAt (service.engine.begin arguments).2))
    (resumed : ∀ {history service execution giveUpAt result}, Run store history service →
      service.clients[client]? = some (.waiting execution giveUpAt) →
      service.engine.dispatcher.result? execution.request = some result →
      motive (history.of client) (.waiting execution giveUpAt) →
      motive (history.of client ++ [⟨service, .resume client⟩])
        (.ofProgress giveUpAt (service.engine.resume execution result).2))
    (expired : ∀ {history service execution giveUpAt}, Run store history service →
      motive (history.of client) (.waiting execution giveUpAt) →
      motive (history.of client ++ [⟨service, .expire client⟩]) (.answered .timedOut))
    (abandoned : ∀ {history service execution giveUpAt}, Run store history service →
      motive (history.of client) (.waiting execution giveUpAt) →
      motive (history.of client ++ [⟨service, .abandon client⟩]) .gaveUp)
    (run : Run store history service) (found : service.clients[client]? = some session) :
    motive (history.of client) session := by
  induction run generalizing session with
  | start => cases found
  | @step history service run action permitted ih =>
      by_cases own : Moment.client? ⟨service, action⟩ = some client
      · rw [History.of_here history own]
        cases action with
        | command arguments giveUpAt =>
            have last : service.clients.length = client := Option.some.inj own
            rw [run.of_eq_nil (List.getElem?_eq_none (Nat.le_of_eq last)), List.nil_append]
            simp only [Service.after] at found
            rw [← last, List.getElem?_append_right (Nat.le_refl _), Nat.sub_self] at found
            cases found
            exact began run last
        | resume acting =>
            cases own
            obtain ⟨execution, giveUpAt, result, waits, returned⟩ := resumes_of_permitted permitted
            simp only [Service.after, clients_resume waits returned] at found
            rw [set_of_waiting waits] at found
            cases found
            exact resumed run waits returned (ih waits)
        | expire acting =>
            cases own
            obtain ⟨execution, giveUpAt, waits⟩ := waits_of_expire permitted
            cases (set_of_waiting waits).symm.trans found
            exact expired run (ih waits)
        | abandon acting =>
            cases own
            obtain ⟨execution, giveUpAt, waits⟩ := waits_of_abandon permitted
            cases (set_of_waiting waits).symm.trans found
            exact abandoned run (ih waits)
        | _ => cases own
      · rw [History.of_elsewhere history own]
        exact ih ((session_elsewhere permitted own).symm.trans found)

end Run

end Service

end InferenceStore
