import ScriptLang.Dialogue

/-! Dialogues whose questions are answered by further dialogues. `Ends` says how such a dialogue ends,
without a count of steps; `Meets` is what it guarantees if each question is asked under a
precondition and answered according to a postcondition. -/

namespace ScriptLang

namespace Dialogue

variable {Q R α β : Type}

/-- The dialogue ends with this answer once every question is answered by its own dialogue. -/
inductive Ends (body : Q → Dialogue Q R R) : {α : Type} → Dialogue Q R α → α → Prop
  | answer {α : Type} (a : α) : Ends body (answer a) a
  | ask {α : Type} {q : Q} {r : R} {resume : R → Dialogue Q R α} {a : α}
      (hq : Ends body (body q) r) (hr : Ends body (resume r) a) : Ends body (ask q resume) a

/-- The dialogue has come so far, its questions up to here being answered by their own dialogues. -/
inductive Leads (body : Q → Dialogue Q R R) : Dialogue Q R α → Dialogue Q R α → Prop
  | refl (d : Dialogue Q R α) : Leads body d d
  | ask {q : Q} {r : R} {resume : R → Dialogue Q R α} {d : Dialogue Q R α}
      (hq : Ends body (body q) r) (h : Leads body (resume r) d) : Leads body (ask q resume) d

namespace Leads

variable {body : Q → Dialogue Q R R} {d d' : Dialogue Q R α}

theorem ends {a : α} (h : Leads body d d') (ha : Ends body d' a) : Ends body d a := by
  induction h with
  | refl d => exact ha
  | ask hq _ ih => exact .ask hq (ih ha)

theorem answered {q : Q} {r : R} {resume : R → Dialogue Q R α}
    (h : Leads body d (.ask q resume)) (hq : Ends body (body q) r) : Leads body d (resume r) := by
  generalize hasked : Dialogue.ask q resume = d' at h
  induction h with
  | refl d =>
    subst hasked
    exact .ask hq (.refl _)
  | ask hfirst _ ih => exact .ask hfirst (ih hasked)

end Leads

/-! ### Driving -/

theorem drive_of_ends {body : Q → Dialogue Q R R} {d : Dialogue Q R α} {a : α}
    (h : Ends body d a) (resume : α → Dialogue Q R R) {waiting : List (R → Dialogue Q R R)}
    {steps : Nat} {result : R} (hdrive : drive body steps waiting (resume a) = some result) :
    ∃ more, drive body more waiting (d.bind resume) = some result := by
  induction h generalizing waiting steps with
  | answer a => exact ⟨steps, hdrive⟩
  | @ask α q r next a hq hr ihq ihr =>
    obtain ⟨rest, hrest⟩ := ihr resume hdrive
    have hanswer : drive body (rest + 1) ((fun r => (next r).bind resume) :: waiting) (answer r) =
        some result := by
      simpa only [drive] using hrest
    obtain ⟨first, hfirst⟩ := ihq answer hanswer
    rw [bind_answer] at hfirst
    exact ⟨first + 1, by simpa only [Dialogue.bind, drive] using hfirst⟩

theorem ends_of_drive {body : Q → Dialogue Q R R} {steps : Nat}
    {waiting : List (R → Dialogue Q R R)} {d : Dialogue Q R R} {result : R}
    (h : drive body steps waiting d = some result) :
    ∃ r fewer, Ends body d r ∧ fewer ≤ steps ∧
      drive body fewer waiting (answer r) = some result := by
  induction steps using Nat.strongRecOn generalizing waiting d with
  | ind steps ih =>
    cases d with
    | answer r => exact ⟨r, steps, .answer r, Nat.le_refl _, h⟩
    | ask q resume =>
      cases steps with
      | zero => simp [drive] at h
      | succ steps =>
        simp only [drive] at h
        obtain ⟨r, fewer, hq, hle, hr⟩ := ih steps (Nat.lt_succ_self _) h
        cases fewer with
        | zero => simp [drive] at hr
        | succ fewer =>
          simp only [drive] at hr
          obtain ⟨r', least, hresume, hle', hr'⟩ := ih fewer (by omega) hr
          exact ⟨r', least, .ask hq hresume, by omega, hr'⟩

theorem exists_drive_iff_ends {body : Q → Dialogue Q R R} {d : Dialogue Q R R} {result : R} :
    (∃ steps, drive body steps [] d = some result) ↔ Ends body d result := by
  constructor
  · rintro ⟨steps, h⟩
    obtain ⟨r, fewer, hends, -, hr⟩ := ends_of_drive h
    cases fewer with
    | zero => simp [drive] at hr
    | succ fewer =>
      simp only [drive, Option.some.injEq] at hr
      exact hr ▸ hends
  · intro h
    have hlast : drive body 1 [] (answer result) = some result := rfl
    obtain ⟨steps, hsteps⟩ := drive_of_ends h answer hlast
    exact ⟨steps, by rwa [bind_answer] at hsteps⟩

/-! ### Unfolding -/

theorem interpret_mono {reply reply' : Q → Option R} (hle : ∀ q r, reply q = some r → reply' q = some r)
    {d : Dialogue Q R α} {a : α} (h : d.interpret reply = some a) : d.interpret reply' = some a := by
  induction d with
  | answer => exact h
  | ask q resume ih =>
    obtain ⟨r, hr, hrest⟩ := Option.bind_eq_some_iff.mp h
    exact Option.bind_eq_some_iff.mpr ⟨r, hle q r hr, ih r hrest⟩

theorem ends_of_interpret {body : Q → Dialogue Q R R} {reply : Q → Option R}
    (hreply : ∀ q r, reply q = some r → Ends body (body q) r) {d : Dialogue Q R α} {a : α}
    (h : d.interpret reply = some a) : Ends body d a := by
  induction d with
  | answer =>
    cases h
    exact .answer _
  | ask q resume ih =>
    obtain ⟨r, hr, hrest⟩ := Option.bind_eq_some_iff.mp h
    exact .ask (hreply q r hr) (ih r hrest)

theorem unfold_mono {body : Q → Dialogue Q R R} {levels more : Nat} (hle : levels ≤ more) {q : Q} {r : R}
    (h : unfold body levels q = some r) : unfold body more q = some r := by
  induction levels generalizing more q r with
  | zero => cases h
  | succ levels ih =>
    obtain ⟨k, rfl⟩ := Nat.exists_eq_add_of_lt hle
    exact interpret_mono (fun q r => ih (Nat.le_add_right levels k)) h

theorem exists_interpret_of_ends {body : Q → Dialogue Q R R} {d : Dialogue Q R α} {a : α}
    (h : Ends body d a) : ∃ levels, d.interpret (unfold body levels) = some a := by
  induction h with
  | answer a => exact ⟨0, rfl⟩
  | @ask _ q r resume a hq hr ihq ihr =>
    obtain ⟨first, hfirst⟩ := ihq
    obtain ⟨second, hsecond⟩ := ihr
    have hreply : unfold body (max (first + 1) second) q = some r :=
      unfold_mono (Nat.le_max_left ..) (show unfold body (first + 1) q = some r from hfirst)
    have hrest : (resume r).interpret (unfold body (max (first + 1) second)) = some a :=
      interpret_mono (fun _ _ => unfold_mono (Nat.le_max_right ..)) hsecond
    exact ⟨max (first + 1) second, Option.bind_eq_some_iff.mpr ⟨r, hreply, hrest⟩⟩

theorem exists_unfold_iff_ends {body : Q → Dialogue Q R R} {q : Q} {r : R} :
    (∃ levels, unfold body levels q = some r) ↔ Ends body (body q) r := by
  constructor
  · rintro ⟨levels, h⟩
    induction levels generalizing q r with
    | zero => cases h
    | succ levels ih => exact ends_of_interpret (fun _ _ => ih) h
  · intro h
    obtain ⟨levels, hlevels⟩ := exists_interpret_of_ends h
    exact ⟨levels + 1, hlevels⟩

/-- A stack of waiting dialogues comes to the same result as recursion. -/
theorem exists_drive_iff_exists_unfold {body : Q → Dialogue Q R R} {q : Q} {r : R} :
    (∃ steps, drive body steps [] (body q) = some r) ↔ ∃ levels, unfold body levels q = some r :=
  exists_drive_iff_ends.trans exists_unfold_iff_ends.symm

/-! ### Sequences -/

theorem Ends.bind {body : Q → Dialogue Q R R} {d : Dialogue Q R α} {f : α → Dialogue Q R β}
    {a : α} {b : β} (h : Ends body d a) (hf : Ends body (f a) b) : Ends body (d.bind f) b := by
  induction h with
  | answer a => exact hf
  | ask hq _ _ ihr => exact .ask hq (ihr hf)

theorem Ends.unique {body : Q → Dialogue Q R R} {d : Dialogue Q R α} {a a' : α} (h : Ends body d a)
    (h' : Ends body d a') : a = a' := by
  induction h with
  | answer a =>
    cases h'
    rfl
  | ask _ _ ihq ihr =>
    cases h' with
    | ask hq' hr' =>
      obtain rfl := ihq hq'
      exact ihr hr'

theorem Ends.bind_iff {body : Q → Dialogue Q R R} {d : Dialogue Q R α} {f : α → Dialogue Q R β}
    {a : α} {b : β} (h : Ends body d a) : Ends body (d.bind f) b ↔ Ends body (f a) b := by
  refine ⟨fun hb => ?_, h.bind⟩
  induction h with
  | answer a => exact hb
  | ask hq _ _ ihr =>
    cases hb with
    | ask hq' hr' =>
      obtain rfl := hq.unique hq'
      exact ihr hr'

/-! ### Guarantees -/

/-- Every question satisfies `pre`, and if all replies satisfy `post` so does the answer. -/
def Meets (pre : Q → Prop) (post : Q → R → Prop) : Dialogue Q R α → (α → Prop) → Prop
  | answer a, good => good a
  | ask q resume, good => pre q ∧ ∀ r, post q r → (resume r).Meets pre post good

variable {pre pre' : Q → Prop} {post : Q → R → Prop} {good good' : α → Prop}

theorem Meets.mono {d : Dialogue Q R α} (h : d.Meets pre post good)
    (hpre : ∀ q, pre q → pre' q) (hgood : ∀ a, good a → good' a) : d.Meets pre' post good' := by
  induction d with
  | answer a => exact hgood a h
  | ask q resume ih => exact ⟨hpre q h.1, fun r hr => ih r (h.2 r hr)⟩

theorem Meets.all {ι : Type} [Nonempty ι] {good : ι → α → Prop} {d : Dialogue Q R α}
    (h : ∀ i, d.Meets pre post (good i)) : d.Meets pre post fun a => ∀ i, good i a := by
  induction d with
  | answer a => exact h
  | ask q resume ih =>
    have i : ι := Classical.choice inferInstance
    exact ⟨(h i).1, fun r hr => ih r fun i => (h i).2 r hr⟩

theorem meets_bind {d : Dialogue Q R α} {f : α → Dialogue Q R β} {good : β → Prop} :
    (d.bind f).Meets pre post good ↔ d.Meets pre post fun a => (f a).Meets pre post good := by
  induction d with
  | answer a => exact Iff.rfl
  | ask q resume ih => exact and_congr_right fun _ => forall_congr' fun r => imp_congr_right fun _ => ih r

/-- The answer of a dialogue is good if the dialogues behind its questions meet their guarantee. -/
theorem Ends.of_meets {body : Q → Dialogue Q R R} (pre : Q → Prop) (post : Q → R → Prop)
    (good : α → Prop) (hbody : ∀ q, pre q → (body q).Meets pre post (post q))
    {d : Dialogue Q R α} {a : α} (h : Ends body d a) (hd : d.Meets pre post good) : good a := by
  induction h with
  | answer a => exact hd
  | ask _ _ ihq ihr => exact ihr good (hd.2 _ (ihq _ (hbody _ hd.1)))

theorem Leads.meets {body : Q → Dialogue Q R R} (pre' : Q → Prop)
    (hbody : ∀ q, pre' q → (body q).Meets pre' post (post q)) (hpre : ∀ q, pre q → pre' q)
    {d d' : Dialogue Q R α} (h : Leads body d d') (hd : d.Meets pre post good) :
    d'.Meets pre post good := by
  induction h with
  | refl d => exact hd
  | @ask q r resume d hq _ ih =>
    exact ih (hd.2 r (hq.of_meets pre' post (post q) hbody (hbody q (hpre q hd.1))))

theorem exists_ends_of_meets {body : Q → Dialogue Q R R}
    (hbody : ∀ q, pre q → ∃ r, Ends body (body q) r ∧ post q r) {d : Dialogue Q R α}
    (hd : d.Meets pre post good) : ∃ a, Ends body d a ∧ good a := by
  induction d with
  | answer a => exact ⟨a, .answer a, hd⟩
  | ask q resume ih =>
    obtain ⟨r, hends, hr⟩ := hbody q hd.1
    obtain ⟨a, ha, hgood⟩ := ih r (hd.2 r hr)
    exact ⟨a, .ask hends ha, hgood⟩

/-- A dialogue ends if each question leads to smaller ones only. -/
theorem exists_ends_of_wellFounded {body : Q → Dialogue Q R R} (pre : Q → Prop)
    (post : Q → R → Prop) (good : α → Prop) {less : Q → Q → Prop} (hless : WellFounded less)
    (hbody : ∀ q, pre q → (body q).Meets (fun next => pre next ∧ less next q) post (post q))
    {d : Dialogue Q R α} (hd : d.Meets pre post good) : ∃ a, Ends body d a ∧ good a := by
  refine exists_ends_of_meets (fun q => ?_) hd
  induction q using hless.induction with
  | _ q ih =>
    intro hq
    exact exists_ends_of_meets (fun next hnext => ih next hnext.2 hnext.1) (hbody q hq)

end Dialogue

end ScriptLang
