import ScriptLang.Proofs.Contract

/-! The moments of a run: what runs and what waits, as the driver goes on. A guarantee that all tasks
keep holds at every moment. -/

namespace ScriptLang

namespace Dialogue

variable {Q R : Type}

/-- Driving `start` comes to where `running` runs and the others wait. -/
inductive Moment (body : Q → Dialogue Q R R) (start : Dialogue Q R R) :
    (waiting : List (R → Dialogue Q R R)) → (running : Dialogue Q R R) → Prop
  | start : Moment body start [] start
  | asked {waiting : List (R → Dialogue Q R R)} {q : Q} {resume : R → Dialogue Q R R}
      (h : Moment body start waiting (ask q resume)) :
      Moment body start (resume :: waiting) (body q)
  | answered {waiting : List (R → Dialogue Q R R)} {r : R} {resume : R → Dialogue Q R R}
      (h : Moment body start (resume :: waiting) (answer r)) :
      Moment body start waiting (resume r)

variable {body : Q → Dialogue Q R R} {start running : Dialogue Q R R}
  {waiting : List (R → Dialogue Q R R)}

/-- The moments are what the driver has at hand after some number of steps. -/
theorem Moment.drive_eq (h : Moment body start waiting running) :
    ∃ before, ∀ steps, drive body (steps + before) [] start = drive body steps waiting running := by
  induction h with
  | start => exact ⟨0, fun _ => rfl⟩
  | asked _ ih =>
    obtain ⟨before, hbefore⟩ := ih
    refine ⟨before + 1, fun steps => ?_⟩
    rw [Nat.add_comm before, ← Nat.add_assoc, hbefore, drive]
  | answered _ ih =>
    obtain ⟨before, hbefore⟩ := ih
    refine ⟨before + 1, fun steps => ?_⟩
    rw [Nat.add_comm before, ← Nat.add_assoc, hbefore, drive]

theorem Moment.of_ends {α : Type} {d : Dialogue Q R α} {a : α} (h : Ends body d a)
    (resume : α → Dialogue Q R R) (hmoment : Moment body start waiting (d.bind resume)) :
    Moment body start waiting (resume a) := by
  induction h generalizing waiting with
  | answer a => exact hmoment
  | @ask α q r next a hq hr ihq ihr =>
    have hanswer : Moment body start ((fun r => (next r).bind resume) :: waiting) (answer r) := by
      refine ihq answer ?_
      rw [bind_answer]
      exact .asked hmoment
    exact ihr resume hanswer.answered

/-- What waits has asked for something while those behind it were waiting, and this has come so far. -/
theorem Moment.exists_asked {front back : List (R → Dialogue Q R R)} {resume : R → Dialogue Q R R}
    (h : Moment body start (front ++ resume :: back) running) :
    ∃ q, Moment body start back (ask q resume) ∧ Moment body (body q) front running := by
  generalize hwaiting : front ++ resume :: back = waiting at h
  -- By induction on the moments; `front` grows when something is asked and shrinks with a reply.
  induction h generalizing front with
  | start => simp at hwaiting
  | @asked waiting q next h ih =>
    cases front with
    | nil =>
      obtain ⟨rfl, rfl⟩ := List.cons.inj hwaiting
      exact ⟨q, h, .start⟩
    | cons first front =>
      obtain ⟨rfl, hrest⟩ := List.cons.inj hwaiting
      obtain ⟨q', hasked, hcourse⟩ := ih hrest
      exact ⟨q', hasked, hcourse.asked⟩
  | @answered waiting r next h ih =>
    have hnext : (next :: front) ++ resume :: back = next :: waiting := by rw [List.cons_append, hwaiting]
    obtain ⟨q', hasked, hcourse⟩ := ih hnext
    exact ⟨q', hasked, hcourse.answered⟩

theorem Moment.pass {front rest : List (R → Dialogue Q R R)} {r : R} (replies : R → Prop)
    (hpasses : ∀ resume ∈ front, ∀ r, replies r → ∃ r', replies r' ∧ resume r = answer r')
    (hr : replies r) (h : Moment body start (front ++ rest) (answer r)) :
    ∃ r', replies r' ∧ Moment body start rest (answer r') := by
  induction front generalizing r with
  | nil => exact ⟨r, hr, h⟩
  | cons resume front ih =>
    obtain ⟨hfirst, hfront⟩ := List.forall_mem_cons.mp hpasses
    obtain ⟨r', hr', heq⟩ := hfirst r hr
    exact ih hfront hr' (heq ▸ h.answered)

theorem Moment.ends {r : R} (h : Moment body start [] (answer r)) : Ends body start r := by
  obtain ⟨before, hbefore⟩ := h.drive_eq
  exact exists_drive_iff_ends.mp ⟨1 + before, hbefore 1⟩

/-- What runs on top of those that wait is a dialogue for what the last of them has asked, and so on down to
the start. -/
def Founded (body : Q → Dialogue Q R R) (start : Dialogue Q R R) (asked : Q → Prop) :
    (base : Dialogue Q R R) → List (R → Dialogue Q R R) → Prop
  | base, [] => base = start
  | base, resume :: waiting => ∃ q below, asked q ∧ base = body q ∧ Leads body below (ask q resume) ∧
      Founded body start asked below waiting

/-- All that is ever asked is asked by the start or by a dialogue for what is asked. -/
theorem Moment.asked_of_ask (asked : Q → Prop)
    (hstart : ∀ q resume, Leads body start (ask q resume) → asked q)
    (hasked : ∀ q, asked q → ∀ q' resume, Leads body (body q) (ask q' resume) → asked q')
    {q : Q} {resume : R → Dialogue Q R R} (h : Moment body start waiting (ask q resume)) :
    asked q := by
  -- Whatever is asked at some moment is asked by the base, which is the start or was itself asked for.
  have hbase : ∀ {base waiting q resume}, Founded body start asked base waiting →
      Leads body base (ask q resume) → asked q := by
    intro base waiting q resume hfounded hleads
    cases waiting with
    | nil =>
      obtain rfl : base = start := hfounded
      exact hstart q resume hleads
    | cons next waiting =>
      obtain ⟨q', below, hq', rfl, -, -⟩ := hfounded
      exact hasked q' hq' q resume hleads
  have hmoment : ∀ {waiting running}, Moment body start waiting running →
      ∃ base, Leads body base running ∧ Founded body start asked base waiting := by
    intro waiting running h
    induction h with
    | start => exact ⟨start, .refl start, rfl⟩
    | @asked waiting q resume _ ih =>
      obtain ⟨base, hleads, hfounded⟩ := ih
      exact ⟨body q, .refl _, q, base, hbase hfounded hleads, rfl, hleads, hfounded⟩
    | @answered waiting r resume _ ih =>
      obtain ⟨base, hleads, q, below, -, rfl, hbelow, hfounded⟩ := ih
      exact ⟨below, hbelow.answered (hleads.ends (.answer r)), hfounded⟩
  obtain ⟨base, hleads, hfounded⟩ := hmoment h
  exact hbase hfounded hleads

variable {pre : Q → Prop} {post : Q → R → Prop}

/-- Those that wait go on well with any reply that is expected, down to the last one. -/
def Awaits (pre : Q → Prop) (post : Q → R → Prop) (reply : R → Prop) :
    (expected : R → Prop) → List (R → Dialogue Q R R) → Prop
  | _, [] => True
  | expected, resume :: waiting => ∃ good, (∀ r, expected r → (resume r).Meets pre post good) ∧
      (∀ r, good r → reply r) ∧ Awaits pre post reply good waiting

theorem Moment.meets (reply : R → Prop) (h : Moment body start waiting running)
    (hbody : ∀ q, pre q → (body q).Meets pre post (post q))
    (hpost : ∀ q r, pre q → post q r → reply r) (hstart : start.Meets pre post reply) :
    ∃ good, running.Meets pre post good ∧ (∀ r, good r → reply r) ∧
      Awaits pre post reply good waiting := by
  induction h with
  | start => exact ⟨reply, hstart, fun _ => id, trivial⟩
  | @asked waiting q resume _ ih =>
    obtain ⟨good, ⟨hq, hresume⟩, hgood, hwaiting⟩ := ih
    exact ⟨post q, hbody q hq, fun r => hpost q r hq, good, hresume, hgood, hwaiting⟩
  | @answered waiting r resume _ ih =>
    obtain ⟨good, hr, -, good', hresume, hgood', hwaiting⟩ := ih
    exact ⟨good', hresume r hr, hgood', hwaiting⟩

end Dialogue

/-- The state that a dialogue has at hand: that of its question or of its answer. -/
def Steps.state {α : Type} : Steps (α × State) → State
  | .answer (_, s) => s
  | .ask (_, s) _ => s

namespace Eval

/-- From `s` on, the computation comes to a moment with the state `s'`. -/
def Passes (c : Eval Value) (s s' : State) : Prop :=
  ∃ waiting running, Dialogue.Moment answer (c.run.run s) waiting running ∧ Steps.state running = s'

theorem Ends.moment {c : Eval Value} {s s' : State} {o : Outcome} (h : c.Ends s o s') :
    Dialogue.Moment answer (c.run.run s) [] (.answer (o, s')) := by
  refine .of_ends (Dialogue.exists_drive_iff_ends.mp h) .answer ?_
  rw [Dialogue.bind_answer]
  exact .start

theorem Passes.of_meets {c : Eval Value} {s s' : State} {C : Contract} {holds : State → Prop}
    (h : c.Passes s s')
    (hbody : ∀ task s, C.pre task s → (body task).Meets C s (C.post task s))
    (hpre : ∀ task s, C.pre task s → holds s)
    (hpost : ∀ task s o s', C.pre task s → C.post task s o s' → holds s')
    (hc : c.Meets C s fun _ s' => holds s') : holds s' := by
  obtain ⟨waiting, running, hmoment, rfl⟩ := h
  obtain ⟨good, hrunning, hgood, -⟩ :=
    hmoment.meets (fun r : Outcome × State => holds r.2) (fun q hq => hbody q.1 q.2 hq)
      (fun q r hq => hpost q.1 q.2 r.1 r.2 hq) hc
  cases running with
  | answer r => exact hgood r hrunning
  | ask q resume => exact hpre q.1 q.2 hrunning.1

end Eval

end ScriptLang
