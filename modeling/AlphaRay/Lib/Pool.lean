import Mathlib.Data.List.Nodup
import Mathlib.Data.List.ReduceOption
import AlphaRay.Lib.Program

namespace AlphaRay.Lib

-- A step with what serves it.
structure Beside {σ τ ℓ : Type} (step : σ → ℓ → σ → Prop) (serves : τ → ℓ → τ → Prop)
    (st : σ × τ) (label : ℓ) (after : σ × τ) : Prop where
  step : step st.1 label after.1
  serves : serves st.2 label after.2

-- What serves programs answers every call.
structure Serving {τ Req Resp : Type} (serves : τ → Option (Said Req Resp) → τ → Prop) : Prop where
  silent : ∀ shared, serves shared none shared
  call : ∀ shared req, serves shared (some (.call req)) shared
  answer : ∀ shared req, ∃ resp now, serves shared (some (.answer req resp)) now

-- A program in its own state. While it waits, its call was made and not yet answered.
structure Worker (σ Own : Type) (Reply : Own → Type) (Req Resp α : Type) where
  state : σ
  program : Program Own Reply Req Resp α
  waiting : Bool

namespace Worker

open Program (wp Plays good_of_wp)

variable {σ Own : Type} {Reply : Own → Type} {Req Resp α : Type}

def start (s : σ) (t : Program Own Reply Req Resp α) : Worker σ Own Reply Req Resp α :=
  ⟨s, t, false⟩

-- One step, with what is heard of it.
inductive Step (does : (q : Own) → σ → Reply q → σ → Prop) :
    Worker σ Own Reply Req Resp α → Option (Said Req Resp) → Worker σ Own Reply Req Resp α → Prop
  | own {q : Own} {next : Reply q → Program Own Reply Req Resp α} {r : Reply q} {s after : σ}
      (hdoes : does q s r after) : Step does ⟨s, .own q next, false⟩ none ⟨after, next r, false⟩
  | call {req : Req} {next : Resp → Program Own Reply Req Resp α} {s : σ} :
      Step does ⟨s, .call req next, false⟩ (some (.call req)) ⟨s, .call req next, true⟩
  | answer {req : Req} {next : Resp → Program Own Reply Req Resp α} {resp : Resp} {s : σ} :
      Step does ⟨s, .call req next, true⟩ (some (.answer req resp)) ⟨s, next resp, false⟩

def heard (past : List (Transition (Worker σ Own Reply Req Resp α) (Option (Said Req Resp)))) :
    List (Said Req Resp) := (past.map (·.label)).reduceOption

section Rules

variable {τ : Type} {does : (q : Own) → σ → Reply q → σ → Prop}
  {serves : τ → Option (Said Req Resp) → τ → Prop} {good : List (Said Req Resp) → Prop}
  {post : α → σ → List (Said Req Resp) → Prop} {talk : List (Said Req Resp)}
  {w start after : Worker σ Own Reply Req Resp α}
  {past : List (Transition (Worker σ Own Reply Req Resp α) (Option (Said Req Resp)))}

-- What is left of the program meets its specification after what was said.
inductive Meets (does : (q : Own) → σ → Reply q → σ → Prop) (good : List (Said Req Resp) → Prop)
    (post : α → σ → List (Said Req Resp) → Prop) :
    Worker σ Own Reply Req Resp α → List (Said Req Resp) → Prop
  | ready {s : σ} {t : Program Own Reply Req Resp α} {talk : List (Said Req Resp)}
      (h : wp does good post t s talk) : Meets does good post ⟨s, t, false⟩ talk
  | waiting {req : Req} {next : Resp → Program Own Reply Req Resp α} {s : σ}
      {talk : List (Said Req Resp)} (hgood : good (talk ++ [.call req]))
      (h : ∀ resp, wp does good post (next resp) s (talk ++ [.call req, .answer req resp])) :
      Meets does good post ⟨s, .call req next, true⟩ (talk ++ [.call req])

theorem good_of_meets (h : Meets does good post w talk) : good talk := by
  cases h with
  | ready h => exact good_of_wp h
  | waiting hgood => exact hgood

theorem post_of_meets {a : α} (h : Meets does good post w talk) (hdone : w.program = .done a) :
    post a w.state talk := by
  cases h with
  | ready h =>
      dsimp only at hdone
      subst hdone
      exact h.2
  | waiting => cases hdone

theorem meets_of_step {said : Option (Said Req Resp)} (h : Meets does good post w talk)
    (hstep : Step does w said after) : Meets does good post after (talk ++ said.toList) := by
  cases hstep with
  | own hdoes =>
      cases h with
      | ready h =>
          rw [Option.toList_none, List.append_nil]
          exact .ready (h.2 _ _ hdoes)
  | call =>
      cases h with
      | ready h => exact .waiting h.2.1 h.2.2
  | @answer req next resp s =>
      cases h with
      | waiting hgood h =>
          rw [Option.toList_some, List.append_assoc]
          exact .ready (h resp)

-- The rule for a worker: it keeps to the specification of its program.
theorem meets_of_run (hstart : Meets does good post start [])
    (hrun : Run (Step does) start past w) : Meets does good post w (heard past) := by
  refine hrun.rule (fun past w => Meets does good post w (heard past)) hstart ?_
  intro past last _ ih hstep
  have hafter := meets_of_step ih hstep
  rw [heard, List.map_append, List.reduceOption_append]
  rcases hlabel : last.label with _ | said
  · rw [hlabel] at hafter
    simpa [heard, hlabel, List.reduceOption] using hafter
  · rw [hlabel] at hafter
    simpa [heard, hlabel, List.reduceOption] using hafter

-- A worker that is done made a complete run of its program.
theorem plays_of_run {s : σ} {t : Program Own Reply Req Resp α} {a : α}
    (hrun : Run (Step does) (.start s t) past w) (hdone : w.program = .done a) :
    Plays does t s (heard past) a w.state := by
  obtain ⟨later, hheard, hplays⟩ := post_of_meets
    (meets_of_run (.ready (Program.wp_plays t s [])) hrun) hdone
  rw [List.nil_append] at hheard
  rw [hheard]
  exact hplays

-- A worker that is answered comes to its end, whatever the answers are.
theorem finishes (htotal : ∀ q s, ∃ r after, does q s r after) (hserves : Serving serves)
    (s : σ) (t : Program Own Reply Req Resp α) (shared : τ) :
    ∃ past a last, Run (Beside (Step does) serves) (.start s t, shared) past last ∧
      last.1.program = .done a := by
  induction t generalizing s shared with
  | done a => exact ⟨[], a, _, .nil, rfl⟩
  | own q next ih =>
      obtain ⟨r, mid, hdoes⟩ := htotal q s
      obtain ⟨past, a, last, hrun, hdone⟩ := ih r mid shared
      have hfirst : Run (Beside (Step does) serves) (.start s (.own q next), shared) _
          (.start mid (next r), shared) := Run.nil.next ⟨.own hdoes, hserves.silent shared⟩
      exact ⟨_, a, last, hfirst.append hrun, hdone⟩
  | call req next ih =>
      obtain ⟨resp, now, hanswer⟩ := hserves.answer shared req
      obtain ⟨past, a, last, hrun, hdone⟩ := ih resp s now
      have hcall : Run (Beside (Step does) serves) (.start s (.call req next), shared) _
          (⟨s, .call req next, true⟩, shared) := Run.nil.next ⟨.call, hserves.call shared req⟩
      have hfirst : Run (Beside (Step does) serves) (.start s (.call req next), shared) _
          (.start s (next resp), now) := hcall.next ⟨.answer, hanswer⟩
      exact ⟨_, a, last, hfirst.append hrun, hdone⟩

-- So does one on its way.
theorem finishes_from (htotal : ∀ q s, ∃ r after, does q s r after) (hserves : Serving serves)
    (hrun : Run (Step does) start past w) (hstart : start.waiting = false) (shared : τ) :
    ∃ more a last, Run (Beside (Step does) serves) (w, shared) more last ∧
      last.1.program = .done a := by
  have hcalled : w.waiting = true → ∃ req next, w.program = .call req next := by
    refine hrun.rule (fun _ w => w.waiting = true → ∃ req next, w.program = .call req next) ?_ ?_
    · intro hwaiting
      rw [hstart] at hwaiting
      cases hwaiting
    · intro past last _ _ hstep
      generalize last.before = before at hstep
      generalize last.label = label at hstep
      generalize last.after = now at hstep
      cases hstep with
      | own | answer => exact Bool.noConfusion
      | call => exact fun _ => ⟨_, _, rfl⟩
  obtain ⟨s, t, waiting⟩ := w
  cases waiting with
  | false => exact finishes htotal hserves s t shared
  | true =>
      obtain ⟨req, next, rfl⟩ := hcalled rfl
      obtain ⟨resp, now, hanswer⟩ := hserves.answer shared req
      obtain ⟨more, a, last, hmore, hdone⟩ := finishes htotal hserves s (next resp) now
      have hfirst : Run (Beside (Step does) serves) (⟨s, .call req next, true⟩, shared) _
          (.start s (next resp), now) := Run.nil.next ⟨.answer, hanswer⟩
      exact ⟨_, a, last, hfirst.append hmore, hdone⟩

end Rules

end Worker

-- Workers that join one by one, as long as the pool is open, and what they share.
structure Pool (τ σ : Type) where
  accepting : Bool
  shared : τ
  workers : List σ

namespace Pool

variable {τ σ ℓ : Type}

inductive Act (σ ℓ : Type) where
  | join (s : σ)
  | close
  | work (i : Nat) (label : ℓ)

-- A worker joins in a first state and goes on in steps of its own. The shared state serves
-- each of these steps.
inductive Step (First : σ → Prop) (step : σ → ℓ → σ → Prop) (serves : τ → ℓ → τ → Prop)
    (pool : Pool τ σ) : Act σ ℓ → Pool τ σ → Prop
  | join {s : σ} (hopen : pool.accepting = true) (hfirst : First s) :
      Step First step serves pool (.join s) { pool with workers := pool.workers ++ [s] }
  | close (hopen : pool.accepting = true) :
      Step First step serves pool .close { pool with accepting := false }
  | work {i : Nat} {label : ℓ} {s after : σ} {now : τ} (hi : pool.workers[i]? = some s)
      (hstep : step s label after) (hserves : serves pool.shared label now) :
      Step First step serves pool (.work i label)
        { pool with shared := now, workers := pool.workers.set i after }

def joined (past : List (Transition (Pool τ σ) (Act σ ℓ))) : List σ :=
  past.filterMap fun t => match t.label with
    | .join s => some s
    | _ => none

-- The steps of the workers, each with its number.
def deeds (past : List (Transition (Pool τ σ) (Act σ ℓ))) : List (Nat × ℓ) :=
  past.filterMap fun t => match t.label with
    | .work i label => some (i, label)
    | _ => none

-- Those of one of them.
def own (i : Nat) (deeds : List (Nat × ℓ)) : List ℓ :=
  deeds.filterMap fun deed => if deed.1 = i then some deed.2 else none

section Own

variable {deeds : List (Nat × ℓ)} {i : Nat}

theorem own_append (more : List (Nat × ℓ)) : own i (deeds ++ more) = own i deeds ++ own i more :=
  List.filterMap_append

theorem own_same (label : ℓ) : own i [(i, label)] = [label] := by simp [own]

theorem own_other {j : Nat} (h : j ≠ i) (label : ℓ) : own i [(j, label)] = [] := by simp [own, h]

theorem mem_of_own {label : ℓ} (h : label ∈ own i deeds) : label ∈ deeds.map Prod.snd := by
  obtain ⟨deed, hmem, hdeed⟩ := List.mem_filterMap.mp h
  split at hdeed
  · cases hdeed
    exact List.mem_map_of_mem hmem
  · cases hdeed

-- A ledger of what the steps give, each entry under the number of its worker.
def ledger {κ : Type} (f : ℓ → Option κ) (deeds : List (Nat × ℓ)) : List (Nat × κ) :=
  deeds.filterMap fun deed => (f deed.2).map (deed.1, ·)

variable {κ : Type} {f : ℓ → Option κ}

theorem map_snd_ledger : (ledger f deeds).map Prod.snd = (deeds.map Prod.snd).filterMap f := by
  induction deeds with
  | nil => rfl
  | cons deed deeds ih =>
      rw [ledger] at ih ⊢
      rw [List.filterMap_cons, List.map_cons, List.filterMap_cons]
      cases f deed.2 with
      | none => exact ih
      | some k => simpa using ih

theorem mem_ledger {k : κ} : (i, k) ∈ ledger f deeds ↔ k ∈ (own i deeds).filterMap f := by
  simp only [ledger, own, List.mem_filterMap]
  constructor
  · rintro ⟨⟨j, label⟩, hmem, hentry⟩
    obtain ⟨k', hlabel, hk⟩ := Option.map_eq_some_iff.mp hentry
    obtain ⟨rfl, rfl⟩ := Prod.mk.inj hk
    exact ⟨label, ⟨_, hmem, if_pos rfl⟩, hlabel⟩
  · rintro ⟨label, ⟨⟨j, label'⟩, hmem, hown⟩, hlabel⟩
    split at hown
    · rename_i hj
      dsimp only at hj
      subst hj
      cases hown
      exact ⟨_, hmem, by rw [hlabel]; rfl⟩
    · cases hown

theorem count_ledger : ((ledger f deeds).map Prod.fst).count i =
    ((own i deeds).filterMap f).length := by
  induction deeds with
  | nil => rfl
  | cons deed deeds ih =>
      rw [ledger, own] at ih ⊢
      rw [List.filterMap_cons, List.filterMap_cons]
      by_cases hi : deed.1 = i
      · cases hf : f deed.2 with
        | none => simpa [hi, hf] using ih
        | some k => simpa [hi, hf] using ih
      · cases hf : f deed.2 with
        | none => simpa [hi, hf] using ih
        | some k => simpa [hi, hf] using ih

-- No worker is in the ledger twice when none of them enters it twice alone.
theorem nodup_ledger (h : ∀ i, ((own i deeds).filterMap f).length ≤ 1) :
    ((ledger f deeds).map Prod.fst).Nodup := by
  refine List.nodup_iff_count_le_one.mpr fun i => ?_
  rw [count_ledger]
  exact h i

end Own

section Runs

variable {First : σ → Prop} {step : σ → ℓ → σ → Prop} {serves : τ → ℓ → τ → Prop} {shared : τ}
  {pool : Pool τ σ} {past : List (Transition (Pool τ σ) (Act σ ℓ))}

-- Alone, a worker made a run from the state in which it joined.
def Alone (First : σ → Prop) (step : σ → ℓ → σ → Prop)
    (past : List (Transition (Pool τ σ) (Act σ ℓ))) (i : Nat) (s : σ) : Prop :=
  ∃ first mine, (joined past)[i]? = some first ∧ First first ∧ Run step first mine s ∧
    mine.map (·.label) = own i (deeds past)

-- What the acts of a run say about the workers and about what they share.
structure Accounts (First : σ → Prop) (step : σ → ℓ → σ → Prop) (serves : τ → ℓ → τ → Prop)
    (shared : τ) (past : List (Transition (Pool τ σ) (Act σ ℓ))) (pool : Pool τ σ) : Prop where
  joined : (joined past).length = pool.workers.length
  absent : ∀ i, pool.workers.length ≤ i → own i (deeds past) = []
  alone : ∀ i s, pool.workers[i]? = some s → Alone First step past i s
  served : ∃ calls, Run serves shared calls pool.shared ∧
    calls.map (·.label) = (deeds past).map Prod.snd

theorem accounts_of_join {before : Pool τ σ} {s : σ}
    (h : Accounts First step serves shared past before) (hfirst : First s) :
    Accounts First step serves shared
      (past ++ [⟨before, .join s, { before with workers := before.workers ++ [s] }⟩])
      { before with workers := before.workers ++ [s] } := by
  have hjoined : joined (past ++ [⟨before, .join s,
      { before with workers := before.workers ++ [s] }⟩]) = joined past ++ [s] := by
    simp [joined]
  have hdeeds : deeds (past ++ [⟨before, .join s,
      { before with workers := before.workers ++ [s] }⟩]) = deeds past := by
    simp [deeds]
  refine ⟨?_, ?_, ?_, ?_⟩
  · rw [hjoined, List.length_append, List.length_append, h.joined]
  · intro i hi
    rw [List.length_append] at hi
    rw [hdeeds]
    exact h.absent i (by omega)
  · intro i now hnow
    rw [Alone, hjoined, hdeeds]
    dsimp only at hnow
    by_cases hi : i < before.workers.length
    · rw [List.getElem?_append_left hi] at hnow
      obtain ⟨first, mine, hjoin, halone⟩ := h.alone i now hnow
      exact ⟨first, mine, by rw [List.getElem?_append_left (by rw [h.joined]; exact hi), hjoin],
        halone⟩
    · rw [List.getElem?_append_right (by omega), List.getElem?_singleton] at hnow
      split at hnow
      · rename_i hlast
        cases hnow
        refine ⟨s, [], ?_, hfirst, .nil, (h.absent i (by omega)).symm⟩
        rw [List.getElem?_append_right (by rw [h.joined]; omega), h.joined, hlast]
        rfl
      · cases hnow
  · rw [hdeeds]
    exact h.served

theorem accounts_of_close {before : Pool τ σ}
    (h : Accounts First step serves shared past before) :
    Accounts First step serves shared
      (past ++ [⟨before, .close, { before with accepting := false }⟩])
      { before with accepting := false } := by
  have hjoined : joined (past ++ [⟨before, .close, { before with accepting := false }⟩]) =
      joined past := by simp [joined]
  have hdeeds : deeds (past ++ [⟨before, .close, { before with accepting := false }⟩]) =
      deeds past := by simp [deeds]
  refine ⟨?_, ?_, ?_, ?_⟩
  · rw [hjoined]
    exact h.joined
  · rw [hdeeds]
    exact h.absent
  · intro i s hs
    rw [Alone, hjoined, hdeeds]
    exact h.alone i s hs
  · rw [hdeeds]
    exact h.served

theorem accounts_of_work {before : Pool τ σ} {i : Nat} {label : ℓ} {s after : σ} {now : τ}
    (h : Accounts First step serves shared past before) (hi : before.workers[i]? = some s)
    (hstep : step s label after) (hserves : serves before.shared label now) :
    Accounts First step serves shared
      (past ++ [⟨before, .work i label,
        { before with shared := now, workers := before.workers.set i after }⟩])
      { before with shared := now, workers := before.workers.set i after } := by
  have hjoined : joined (past ++ [⟨before, .work i label,
      { before with shared := now, workers := before.workers.set i after }⟩]) = joined past := by
    simp [joined]
  have hdeeds : deeds (past ++ [⟨before, .work i label,
      { before with shared := now, workers := before.workers.set i after }⟩]) =
      deeds past ++ [(i, label)] := by
    simp [deeds]
  have hlt : i < before.workers.length := (List.getElem?_eq_some_iff.mp hi).1
  refine ⟨?_, ?_, ?_, ?_⟩
  · rw [hjoined, List.length_set, h.joined]
  · intro j hj
    rw [List.length_set] at hj
    rw [hdeeds, own_append, h.absent j hj, own_other (by omega), List.append_nil]
  · intro j later hlater
    dsimp only at hlater
    rw [List.getElem?_set] at hlater
    rw [Alone, hjoined, hdeeds, own_append]
    split at hlater
    · rename_i hij
      subst hij
      cases hlater
      obtain ⟨first, mine, hjoin, hfirst, hrun, hmine⟩ := h.alone i s hi
      refine ⟨first, _, hjoin, hfirst, hrun.next hstep, ?_⟩
      rw [List.map_append, hmine, own_same]
      rfl
    · rename_i hij
      obtain ⟨first, mine, hjoin, hfirst, hrun, hmine⟩ := h.alone j later hlater
      exact ⟨first, mine, hjoin, hfirst, hrun, by rw [hmine, own_other hij, List.append_nil]⟩
  · obtain ⟨calls, hcalls, hlabels⟩ := h.served
    refine ⟨_, hcalls.next hserves, ?_⟩
    rw [List.map_append, hlabels, hdeeds, List.map_append]
    rfl

-- The rule for a pool: every run of it is a run of each worker and one of the shared state.
theorem accounts_of_run (hrun : Run (Step First step serves) ⟨true, shared, []⟩ past pool) :
    Accounts First step serves shared past pool := by
  refine hrun.rule (Accounts First step serves shared)
    ⟨rfl, fun _ _ => rfl, fun i s hs => ?_, ⟨[], .nil, rfl⟩⟩ ?_
  · rw [List.getElem?_nil] at hs
    cases hs
  · rintro past ⟨before, label, after⟩ _ ih hstep
    dsimp only at ih hstep ⊢
    cases hstep with
    | join hopen hfirst => exact accounts_of_join ih hfirst
    | close hopen => exact accounts_of_close ih
    | work hi hstep hserves => exact accounts_of_work ih hi hstep hserves

-- What a worker can do alone it can do in the pool, with all others waiting.
theorem run_of_beside {i : Nat} {s : σ} {last : σ × τ} {mine : List (Transition (σ × τ) ℓ)}
    (hi : pool.workers[i]? = some s)
    (hmine : Run (Beside step serves) (s, pool.shared) mine last) :
    ∃ more, Run (Step First step serves) pool more
        { pool with shared := last.2, workers := pool.workers.set i last.1 } ∧
      ∀ t ∈ more, ∃ label, t.label = .work i label := by
  have hlt : i < pool.workers.length := (List.getElem?_eq_some_iff.mp hi).1
  refine hmine.rule (fun _ now => ∃ more, Run (Step First step serves) pool more
    { pool with shared := now.2, workers := pool.workers.set i now.1 } ∧
      ∀ t ∈ more, ∃ label, t.label = .work i label) ⟨[], ?_, fun t ht => by cases ht⟩ ?_
  · obtain ⟨hlt, rfl⟩ := List.getElem?_eq_some_iff.mp hi
    rw [List.set_getElem_self hlt]
    exact .nil
  · rintro past ⟨before, label, after⟩ _ ⟨more, hmore, hlabels⟩ hstep
    have hthere : (pool.workers.set i before.1)[i]? = some before.1 :=
      List.getElem?_set_self hlt
    have hwork : Step First step serves
        { pool with shared := before.2, workers := pool.workers.set i before.1 } (.work i label)
        { pool with shared := after.2, workers := (pool.workers.set i before.1).set i after.1 } :=
      .work hthere hstep.step hstep.serves
    rw [List.set_set] at hwork
    refine ⟨_, hmore.next hwork, fun t ht => ?_⟩
    rcases List.mem_append.mp ht with ht | ht
    · exact hlabels t ht
    · obtain rfl := List.mem_singleton.mp ht
      exact ⟨label, rfl⟩

end Runs

end Pool

end AlphaRay.Lib
