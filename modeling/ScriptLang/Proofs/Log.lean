import ScriptLang.Proofs.Contract

/-! What a computation asks for, in turn. Its log is made of the tasks that it asks for and of how they end,
but not of what happens inside of them. Tasks that are only a part of the computation itself, as the further
rounds of a loop are, can be taken for its own: then their logs stand in their place. -/

namespace ScriptLang

namespace Dialogue

variable {Q R α β : Type}

/-- The dialogue ends with this answer, after the questions in the log with their replies. -/
inductive Logs (body : Q → Dialogue Q R R) (own : Q → Prop) :
    {α : Type} → Dialogue Q R α → List (Q × R) → α → Prop
  | answer {α : Type} (a : α) : Logs body own (answer a) [] a
  | ask {α : Type} {q : Q} {r : R} {resume : R → Dialogue Q R α} {log : List (Q × R)} {a : α}
      (hown : ¬ own q) (hq : Ends body (body q) r) (hr : Logs body own (resume r) log a) :
      Logs body own (ask q resume) ((q, r) :: log) a
  | follow {α : Type} {q : Q} {r : R} {resume : R → Dialogue Q R α} {inner log : List (Q × R)} {a : α}
      (hown : own q) (hq : Logs body own (body q) inner r) (hr : Logs body own (resume r) log a) :
      Logs body own (ask q resume) (inner ++ log) a

variable {body : Q → Dialogue Q R R} {own : Q → Prop} {log : List (Q × R)}

theorem Logs.ends {d : Dialogue Q R α} {a : α} (h : Logs body own d log a) : Ends body d a := by
  induction h with
  | answer a => exact .answer a
  | ask _ hq _ ih => exact .ask hq ih
  | follow _ _ _ ihq ihr => exact .ask ihq ihr

theorem Ends.exists_logs {d : Dialogue Q R α} {a : α} (h : Ends body d a) (own : Q → Prop) :
    ∃ log, Logs body own d log a := by
  induction h with
  | answer a => exact ⟨[], .answer a⟩
  | @ask _ q r _ a hq _ ihq ihr =>
    obtain ⟨inner, hinner⟩ := ihq
    obtain ⟨log, hlog⟩ := ihr
    by_cases hown : own q
    · exact ⟨inner ++ log, .follow hown hinner hlog⟩
    · exact ⟨(q, r) :: log, .ask hown hq hlog⟩

theorem logs_answer {a a' : α} : Logs body own (answer a) log a' ↔ log = [] ∧ a' = a := by
  constructor
  · intro h
    cases h
    exact ⟨rfl, rfl⟩
  · rintro ⟨rfl, rfl⟩
    exact .answer _

theorem logs_ask {q : Q} {resume : R → Dialogue Q R α} {a : α} (hown : ¬ own q) :
    Logs body own (ask q resume) log a ↔
      ∃ r rest, log = (q, r) :: rest ∧ Ends body (body q) r ∧ Logs body own (resume r) rest a := by
  constructor
  · intro h
    cases h with
    | ask _ hq hr => exact ⟨_, _, rfl, hq, hr⟩
    | follow hown' => exact absurd hown' hown
  · rintro ⟨r, rest, rfl, hq, hr⟩
    exact .ask hown hq hr

theorem logs_follow {q : Q} {resume : R → Dialogue Q R α} {a : α} (hown : own q) :
    Logs body own (ask q resume) log a ↔
      ∃ r inner rest, log = inner ++ rest ∧ Logs body own (body q) inner r ∧
        Logs body own (resume r) rest a := by
  constructor
  · intro h
    cases h with
    | ask hown' => exact absurd hown hown'
    | follow _ hq hr => exact ⟨_, _, _, rfl, hq, hr⟩
  · rintro ⟨r, inner, rest, rfl, hq, hr⟩
    exact .follow hown hq hr

theorem Logs.bind {d : Dialogue Q R α} {f : α → Dialogue Q R β} {front back : List (Q × R)} {a : α}
    {b : β} (h : Logs body own d front a) (hf : Logs body own (f a) back b) :
    Logs body own (d.bind f) (front ++ back) b := by
  induction h with
  | answer a => exact hf
  | ask hown hq _ ih => exact .ask hown hq (ih hf)
  | follow hown hq _ _ ih =>
    rw [List.append_assoc]
    exact .follow hown hq (ih hf)

theorem logs_bind {d : Dialogue Q R α} {f : α → Dialogue Q R β} {b : β} :
    Logs body own (d.bind f) log b ↔
      ∃ a front back, log = front ++ back ∧ Logs body own d front a ∧ Logs body own (f a) back b := by
  constructor
  · intro h
    induction d generalizing log with
    | answer a => exact ⟨a, [], log, rfl, .answer a, h⟩
    | ask q resume ih =>
      cases h with
      | @ask _ _ r _ _ _ hown hq hr =>
        obtain ⟨a, front, back, rfl, hfront, hback⟩ := ih r hr
        exact ⟨a, (q, r) :: front, back, rfl, .ask hown hq hfront, hback⟩
      | @follow _ _ r _ inner _ _ hown hq hr =>
        obtain ⟨a, front, back, rfl, hfront, hback⟩ := ih r hr
        exact ⟨a, inner ++ front, back, (List.append_assoc ..).symm, .follow hown hq hfront, hback⟩
  · rintro ⟨a, front, back, rfl, hfront, hback⟩
    exact hfront.bind hback

end Dialogue

/-- A task, the state it started in, how it ended and in which state. -/
abbrev Event : Type :=
  (Task × State) × Outcome × State

namespace Event

/-- The task of the event ends as the event says. -/
def Holds (e : Event) : Prop :=
  (Eval.body e.1.1).Ends e.1.2 e.2.1 e.2.2

def evaluated (scope : ScopeId) (e : Expr Nat) (s : State) (o : Outcome) (s' : State) : Event :=
  ((.expression scope e, s), o, s')

end Event

namespace Eval

variable {α β : Type} {own : Task → Prop} {s s' : State} {log : List Event}

def Owns (own : Task → Prop) (q : Task × State) : Prop :=
  own q.1

/-- The computation ends with this result, and the log is what it has asked for. -/
def Logs (own : Task → Prop) (c : Eval α) (s : State) (log : List Event) (r : Except Signal α)
    (s' : State) : Prop :=
  Dialogue.Logs answer (Owns own) (c.run.run s) log (r, s')

theorem exists_logs_iff_ends {c : Eval Value} {o : Outcome} (own : Task → Prop) :
    (∃ log, c.Logs own s log o s') ↔ c.Ends s o s' := by
  rw [Ends, Dialogue.exists_drive_iff_ends]
  constructor
  · rintro ⟨log, h⟩
    exact h.ends
  · exact fun h => h.exists_logs _

theorem logs_answer {c : Eval α} {r r' : Except Signal α} {s'' : State}
    (h : c.run.run s = .answer (r, s')) : c.Logs own s log r' s'' ↔ log = [] ∧ r' = r ∧ s'' = s' := by
  rw [Logs, h, Dialogue.logs_answer, Prod.mk.injEq]

theorem logs_pure {a : α} {r : Except Signal α} :
    (pure a : Eval α).Logs own s log r s' ↔ log = [] ∧ r = .ok a ∧ s' = s :=
  logs_answer rfl

theorem logs_throw {signal : Signal} {r : Except Signal α} :
    (throw signal : Eval α).Logs own s log r s' ↔ log = [] ∧ r = .error signal ∧ s' = s :=
  logs_answer rfl

theorem logs_bind {c : Eval α} {f : α → Eval β} {r : Except Signal β} :
    (c >>= f).Logs own s log r s' ↔
      (∃ signal, c.Logs own s log (.error signal) s' ∧ r = .error signal) ∨
        ∃ a s₁ front back, log = front ++ back ∧ c.Logs own s front (.ok a) s₁ ∧
          (f a).Logs own s₁ back r s' := by
  change Dialogue.Logs _ _ ((c.run.run s).bind _) _ _ ↔ _
  rw [Dialogue.logs_bind]
  constructor
  · rintro ⟨⟨signal | a, s₁⟩, front, back, rfl, hc, hf⟩
    · obtain ⟨rfl, hr⟩ := Dialogue.logs_answer.mp hf
      obtain ⟨rfl, rfl⟩ := Prod.mk.inj hr
      rw [List.append_nil]
      exact .inl ⟨signal, hc, rfl⟩
    · exact .inr ⟨a, s₁, front, back, rfl, hc, hf⟩
  · rintro (⟨signal, hc, rfl⟩ | ⟨a, s₁, front, back, rfl, hc, hf⟩)
    · exact ⟨_, log, [], (List.append_nil log).symm, hc, .answer _⟩
    · exact ⟨_, front, back, rfl, hc, hf⟩

theorem logs_create_bind {f : State → α × State} {g : α → Eval β} {r : Except Signal β} :
    (create f >>= g).Logs own s log r s' ↔ (g (f s).1).Logs own (f s).2 log r s' :=
  Iff.rfl

section Tasks

variable {task : Task} {o : Outcome}

theorem logs_perform (hown : ¬ own task) :
    (perform task).Logs own s log o s' ↔ log = [((task, s), o, s')] ∧ (body task).Ends s o s' := by
  change Dialogue.Logs _ _ (.ask (task, s) .answer) _ _ ↔ _
  have hown : ¬ Owns own (task, s) := hown
  refine (Dialogue.logs_ask hown).trans ?_
  rw [Ends, Dialogue.exists_drive_iff_ends]
  constructor
  · rintro ⟨r, rest, rfl, hends, hr⟩
    obtain ⟨rfl, rfl⟩ := Dialogue.logs_answer.mp hr
    exact ⟨rfl, hends⟩
  · rintro ⟨rfl, hends⟩
    exact ⟨(o, s'), [], rfl, hends, .answer _⟩

/-- What an own task asks for is in the log in its place. -/
theorem logs_perform_own (hown : own task) :
    (perform task).Logs own s log o s' ↔ (body task).Logs own s log o s' := by
  change Dialogue.Logs _ _ (.ask (task, s) .answer) _ _ ↔ _
  have hown : Owns own (task, s) := hown
  refine (Dialogue.logs_follow hown).trans ?_
  constructor
  · rintro ⟨r, inner, rest, rfl, hinner, hr⟩
    obtain ⟨rfl, rfl⟩ := Dialogue.logs_answer.mp hr
    rw [List.append_nil]
    exact hinner
  · exact fun h => ⟨(o, s'), log, [], (List.append_nil log).symm, h, .answer _⟩

theorem logs_perform_own_bind {v : Value} {f : Value → Eval β} {r : Except Signal β} (hown : own task)
    (hbody : body task = pure v) :
    (perform task >>= f).Logs own s log r s' ↔ (f v).Logs own s log r s' := by
  have hlogs : ∀ {front : List Event} {o s₁},
      (perform task).Logs own s front o s₁ ↔ front = [] ∧ o = .ok v ∧ s₁ = s := by
    intro front o s₁
    rw [logs_perform_own hown, hbody, logs_pure]
  rw [logs_bind]
  constructor
  · rintro (⟨signal, hfront, -⟩ | ⟨w, s₁, front, back, rfl, hfront, hback⟩)
    · obtain ⟨-, herror, -⟩ := hlogs.mp hfront
      cases herror
    · obtain ⟨rfl, hv, rfl⟩ := hlogs.mp hfront
      obtain rfl := Except.ok.inj hv
      exact hback
  · exact fun h => .inr ⟨v, s, [], log, rfl, hlogs.mpr ⟨rfl, rfl, rfl⟩, h⟩

theorem logs_attempt_bind {f : Outcome → Eval β} {r : Except Signal β} (hown : ¬ own task) :
    (attempt task >>= f).Logs own s log r s' ↔
      ∃ o s₁ rest, log = ((task, s), o, s₁) :: rest ∧ (body task).Ends s o s₁ ∧
        (f o).Logs own s₁ rest r s' := by
  change Dialogue.Logs _ _ (.ask (task, s) fun (o, s₁) => (f o).run.run s₁) _ _ ↔ _
  have hown : ¬ Owns own (task, s) := hown
  refine (Dialogue.logs_ask hown).trans ?_
  simp only [Ends, Dialogue.exists_drive_iff_ends, Prod.exists]
  constructor
  · rintro ⟨o, s₁, rest, h⟩
    exact ⟨o, s₁, rest, h⟩
  · rintro ⟨o, s₁, rest, h⟩
    exact ⟨o, s₁, rest, h⟩

theorem logs_perform_bind {f : Value → Eval β} {r : Except Signal β} (hown : ¬ own task) :
    (perform task >>= f).Logs own s log r s' ↔
      (∃ signal, log = [((task, s), .error signal, s')] ∧ (body task).Ends s (.error signal) s' ∧
        r = .error signal) ∨
      ∃ v s₁ rest, log = ((task, s), .ok v, s₁) :: rest ∧ (body task).Ends s (.ok v) s₁ ∧
        (f v).Logs own s₁ rest r s' := by
  rw [logs_bind]
  simp only [logs_perform hown]
  refine or_congr (exists_congr fun signal => and_assoc) (exists_congr fun v => exists_congr fun s₁ => ?_)
  constructor
  · rintro ⟨_, rest, rfl, ⟨rfl, hends⟩, hrest⟩
    exact ⟨rest, rfl, hends, hrest⟩
  · rintro ⟨rest, rfl, hends, hrest⟩
    exact ⟨_, rest, rfl, ⟨rfl, hends⟩, hrest⟩

end Tasks

end Eval

end ScriptLang
