import ScriptLang.Proofs.Descent
import ScriptLang.Proofs.Frame
import ScriptLang.Proofs.Occurrence
import ScriptLang.Proofs.Tidy

/-! Which functions there are in a host's state. Programs are read and run one after another, and each
function that comes to light was read from one token of one of them. Functions are equal exactly if this is
the same token. -/

namespace ScriptLang

variable {O : Origin} {s s' : State}

/-! ### Numbers that are not used yet -/

theorem Trail.nextFunction_eq {D : Domain} {scope : ScopeId} {name : String → Prop}
    (h : Trail D scope name s s') : s'.nextFunction = s.nextFunction := by
  induction h with
  | refl => rfl
  | change _ hchange ih =>
    rw [← ih]
    cases hchange with
    | @write w => cases w <;> rfl
    | _ => rfl
  | declare _ _ _ ih => exact ih
  | enter _ _ _ ih ihInner => exact ihInner.trans ih
  | call _ _ _ _ ih ihInner => exact ihInner.trans ih

/-- All cells, with code that may loop. -/
def Domain.whole : Domain :=
  ⟨fun _ => True, True⟩

theorem State.nextFunction_newGlobal : s.newGlobal.2.nextFunction = s.nextFunction :=
  List.foldlRecOn (motive := fun s' : State => s'.nextFunction = s.nextFunction) _ _ rfl fun _ hs' _ _ => hs'

theorem Program.le_identify {ι : Type} (program : Program ι) (first : Nat) :
    first ≤ (program.identify first).2 :=
  (Marks.stmts_numbers first program).next_eq ▸ Nat.le_add_right _ _

theorem Value.StemsFrom.within_whole {v : Value} (h : v.StemsFrom O) : v.Within .whole := by
  induction v with
  | function f => exact ⟨f.function.permitted_anyName, trivial, fun _ _ => trivial⟩
  | native f => exact h
  | tagged m payload ih => exact ih h
  | null | bool | number | string | container | classRef | enumeration | member => trivial

theorem State.StemsFrom.within_whole (h : s.StemsFrom O) : s.Within .whole where
  scopes _ c _ hc := ⟨fun entry hentry => (h.bindings _ c hc entry hentry).within_whole, fun _ _ => trivial⟩
  arrays _ items _ hitems v hv := (h.items _ items hitems v hv).within_whole
  objects _ record _ hrecord entry hentry := (h.properties _ record hrecord entry hentry).within_whole
  classes _ c _ hc :=
    ⟨fun entry hentry => ((h.classes _ c hc).staticFields entry hentry).within_whole,
      fun entry _ => ⟨entry.2.permitted_anyName, trivial⟩,
      fun entry _ => ⟨entry.2.permitted_anyName, trivial⟩⟩
  instances _ x _ hx := ⟨trivial, fun entry hentry => (h.fields _ x hx entry hentry).within_whole⟩
  fresh _ _ := trivial

theorem State.StemsFrom.nextFunction_eq (h : s.StemsFrom O) {scope : ScopeId} {body : List (Stmt Nat)}
    {o : Outcome} (hends : (Eval.perform (.block scope body)).Ends s o s') :
    s'.nextFunction = s.nextFunction := by
  let k : Site .whole := ⟨scope, fun _ => True, True, trivial⟩
  have hruns : k.Runs s.limits ((Phrase.block body).run scope) (·.Within .whole) :=
    .phrase trivial (Phrase.block body).permitted_anyName
  have hready : k.Ready s.limits s := ⟨h.within_whole, ⟨fun _ => trivial, .inl trivial⟩, rfl, rfl⟩
  exact (hruns.trail hready hends).1.nextFunction_eq

/-! ### Histories -/

/-- The states of a host that makes scopes, and reads programs and runs them in any of these, with all that
it has read. -/
inductive State.History : List Reading → State → Prop
  | initial (maxDepth : Nat) : History [] (.initial maxDepth)
  | global {readings : List Reading} {s : State} (h : History readings s) :
    History readings s.newGlobal.2
  | enter {readings : List Reading} {s : State} (kind : ScopeKind) (parent : ScopeId)
      (h : History readings s) : History readings (s.enter kind parent).2
  | run {readings : List Reading} {s s' : State} {scope : ScopeId} {tokens : List Token} {source : Source}
      {o : Outcome} (h : History readings s) (hparse : parseTokens tokens = .ok source)
      (hends : (Eval.perform (.block scope (s.load source).1)).Ends (s.load source).2 o s') :
      History (⟨tokens, s.nextFunction⟩ :: readings) s'

/-- The functions that the readings introduce, on any lines. -/
def Origin.ofReadings (readings : List Reading) : Origin :=
  ⟨fun _ => True, fun f => ∃ r ∈ readings, ∃ i, r.Introduces i f⟩

theorem Reading.covers {tokens : List Token} {source : Source} (h : parseTokens tokens = .ok source)
    (hline : ∀ n, O.line n)
    (hfunction : ∀ i f, (Reading.mk tokens s.nextFunction).Introduces i f → O.function f) :
    O.Covers (Marks.stmts (s.load source).1) := by
  rintro (n | f) hm
  · exact hline n
  · have hmem : f ∈ Program.functions (s.load source).1 := List.mem_filterMap.mpr ⟨_, hm, rfl⟩
    obtain ⟨i, hi⟩ := Reading.exists_introduces (r := ⟨tokens, s.nextFunction⟩) h hmem
    exact hfunction i f hi

/-- The functions of the readings have numbers below `next`, and no number stands for two tokens. -/
structure Reading.Apart (readings : List Reading) (next : Nat) : Prop where
  identity_lt : ∀ r ∈ readings, ∀ i f, r.Introduces i f → f.identity < next
  identity_inj : ∀ r ∈ readings, ∀ r' ∈ readings, ∀ i j f g, r.Introduces i f → r'.Introduces j g →
    f.identity = g.identity → r = r' ∧ i = j

theorem Reading.Apart.cons {readings : List Reading} {next : Nat} (h : Reading.Apart readings next)
    {tokens : List Token} {source : Source} (hparse : parseTokens tokens = .ok source) :
    Reading.Apart (⟨tokens, next⟩ :: readings) (source.identify next).2 := by
  let new : Reading := ⟨tokens, next⟩
  have hnew : ∀ i f, new.Introduces i f → next ≤ f.identity ∧ f.identity < (source.identify next).2 :=
    fun i f hf => hf.bounds hparse
  have hold : ∀ r ∈ readings, ∀ i f, r.Introduces i f → f.identity < next := h.identity_lt
  constructor
  · intro r hr i f hf
    rcases List.mem_cons.mp hr with rfl | hr
    · exact (hnew i f hf).2
    · exact Nat.lt_of_lt_of_le (hold r hr i f hf) (Program.le_identify source next)
  · intro r hr r' hr' i j f g hf hg heq
    rcases List.mem_cons.mp hr with rfl | hr <;> rcases List.mem_cons.mp hr' with rfl | hr'
    · exact ⟨rfl, (hf.identity_eq_iff hg).mp heq⟩
    · exact absurd (hold r' hr' j g hg) (Nat.not_lt.mpr (heq ▸ (hnew i f hf).1))
    · exact absurd (hold r hr i f hf) (Nat.not_lt.mpr (heq ▸ (hnew j g hg).1))
    · exact h.identity_inj r hr r' hr' i j f g hf hg heq

namespace State.History

variable {readings : List Reading} {tokens : List Token} {source : Source}

/-- What a host has read is all that functions can stem from. -/
theorem stemsFrom (h : History readings s) (hline : ∀ n, O.line n)
    (hfunction : ∀ r ∈ readings, ∀ i f, r.Introduces i f → O.function f) : s.StemsFrom O := by
  induction h with
  | initial => exact initial_stemsFrom
  | global _ ih => exact (ih hfunction).newGlobal
  | enter kind parent _ ih => exact (ih hfunction).enter
  | @run readings s s' scope tokens source o _ hparse hends ih =>
    obtain ⟨hnew, hold⟩ := List.forall_mem_cons.mp hfunction
    exact (((ih hold).starts (Reading.covers hparse hline hnew)).ends hends).1

theorem starts (h : History readings s) (hparse : parseTokens tokens = .ok source) (scope : ScopeId) :
    (Origin.ofReadings (⟨tokens, s.nextFunction⟩ :: readings)).Starts (.block scope (s.load source).1)
      (s.load source).2 := by
  have hstate : s.StemsFrom (.ofReadings (⟨tokens, s.nextFunction⟩ :: readings)) :=
    h.stemsFrom (fun _ => trivial) fun r hr i f hf => ⟨r, List.mem_cons_of_mem _ hr, i, hf⟩
  refine hstate.starts (Reading.covers hparse (fun _ => trivial) fun i f hf => ?_)
  exact ⟨_, List.mem_cons_self, i, hf⟩

theorem apart (h : History readings s) : Reading.Apart readings s.nextFunction := by
  induction h with
  | initial => exact ⟨fun _ => nofun, fun _ => nofun⟩
  | @global readings s _ ih =>
    rw [nextFunction_newGlobal]
    exact ih
  | enter kind parent _ ih => exact ih
  | @run readings s s' scope tokens source o h hparse hends ih =>
    have hnext : s'.nextFunction = (source.identify s.nextFunction).2 :=
      (h.starts hparse scope).state.nextFunction_eq hends
    exact hnext ▸ ih.cons hparse

end State.History

/-! ### Functions that come to light -/

/-- The function that the value is, or is tagged with. -/
def Value.closure? : Value → Option Closure
  | function f => some f
  | tagged _ payload => payload.closure?
  | null | bool _ | number _ | string _ | container _ | native _ | classRef _ | enumeration _
  | member _ => none

/-- In the course of the computation the function stands in some cell, or some task ends with it. -/
def Eval.Shows (c : Eval Value) (s : State) (f : Closure) : Prop :=
  ∃ waiting running, Dialogue.Moment answer (c.run.run s) waiting running ∧
    ∃ v : Value, v.closure? = some f ∧
      ((Steps.state running).Holds v ∨ ∃ o s', running = .answer (o, s') ∧ o.value? = some v)

theorem Value.StemsFrom.closure {v : Value} {f : Closure} (h : v.StemsFrom O) (hf : v.closure? = some f) :
    O.Covers f.function.marks := by
  induction v with
  | function g =>
    obtain rfl : g = f := Option.some.inj hf
    exact h
  | tagged m payload ih => exact ih h hf
  | null | bool | number | string | container | native | classRef | enumeration | member => cases hf

theorem Outcome.StemsFrom.value {o : Outcome} {v : Value} (h : o.StemsFrom O) (hv : o.value? = some v) :
    v.StemsFrom O := by
  match o with
  | .ok u | .error (.returned u) =>
    obtain rfl : u = v := Option.some.inj hv
    exact h
  | .error (.raised (.thrown u line)) =>
    obtain rfl : u = v := Option.some.inj hv
    exact h.1
  | .error .broke | .error .continued | .error (.raised (.fault f)) => cases hv

theorem State.StemsFrom.holds {v : Value} (h : s.StemsFrom O) (hv : s.Holds v) : v.StemsFrom O := by
  cases hv with
  | binding hscope hmem => exact h.bindings _ _ hscope _ hmem
  | item harray hmem => exact h.items _ _ harray _ hmem
  | property hobject hmem => exact h.properties _ _ hobject _ hmem
  | staticField hclass hmem => exact (h.classes _ _ hclass).staticFields _ hmem
  | field hinstance hmem => exact h.fields _ _ hinstance _ hmem

/-- A function that comes to light stems from where the code does that is run. -/
theorem Origin.Starts.shows {t : Task} {f : Closure} (h : O.Starts t s) (hf : (Eval.perform t).Shows s f) :
    O.Covers f.function.marks := by
  obtain ⟨waiting, running, hmoment, v, hv, hcase⟩ := hf
  let reply (r : Outcome × State) : Prop := r.2.StemsFrom O ∧ r.1.StemsFrom O
  obtain ⟨good, hrunning, hgood, -⟩ := hmoment.meets reply (fun q hq => O.body_meets q.1 q.2 hq)
    (fun q r _ hr => hr) h.perform_meets
  rcases hcase with hholds | ⟨o, s', rfl, ho⟩
  · have hstate : (Steps.state running).StemsFrom O := by
      cases running with
      | answer r => exact (hgood r hrunning).1
      | ask q resume => exact hrunning.1.state
    exact (hstate.holds hholds).closure hv
  · exact ((hgood _ hrunning).2.value ho).closure hv

/-! ### Equal functions -/

theorem FunctionDecl.mem_marks (f : FunctionDecl Nat) : .function f ∈ f.marks := by
  cases f
  exact List.mem_cons_self

theorem State.equal_function {t : State} {f g : Closure} :
    t.equal (.function f) (.function g) = true ↔ f.function.identity = g.function.identity := by
  rw [State.equal, State.equalIn]
  exact beq_iff_eq

/-- Whatever has been run, and whatever is being run, functions that come to light were each read from just
one token of one program, which is a `fn`, the name of a method or a `->`, and two of them are equal exactly
if this token is the same. -/
theorem State.History.equal_function_iff {readings : List Reading} (h : History readings s)
    {tokens : List Token} {source : Source} (hparse : parseTokens tokens = .ok source) {scope : ScopeId}
    {f g : Closure} (hf : (Eval.perform (.block scope (s.load source).1)).Shows (s.load source).2 f)
    (hg : (Eval.perform (.block scope (s.load source).1)).Shows (s.load source).2 g) :
    let all : List Reading := ⟨tokens, s.nextFunction⟩ :: readings
    ∃ r ∈ all, ∃ i t, r.Introduces i f.function ∧ r.tokens[i]? = some t ∧ t.kind.Introduces ∧
      f.function.line = t.line ∧
      (∀ r' ∈ all, ∀ i', r'.Introduces i' f.function → r' = r ∧ i' = i) ∧
      ∀ s' : State, s'.equal (.function f) (.function g) = true ↔ r.Introduces i g.function := by
  intro all
  have hfrom : ∀ f : Closure, (Eval.perform (.block scope (s.load source).1)).Shows (s.load source).2 f →
      ∃ r ∈ all, ∃ i, r.Introduces i f.function := by
    intro f hf
    have hcovers := (h.starts hparse scope).shows hf
    exact hcovers (.function f.function) f.function.mem_marks
  -- The numbers of this program are apart from those of all programs read before.
  have hapart : Reading.Apart all (source.identify s.nextFunction).2 := h.apart.cons hparse
  obtain ⟨r, hr, i, hi⟩ := hfrom f hf
  obtain ⟨t, ht, hkind, hline⟩ := hi.exists_token
  refine ⟨r, hr, i, t, hi, ht, hkind, hline, fun r' hr' i' hi' => ?_, fun s' => ?_⟩
  · exact hapart.identity_inj r' hr' r hr i' i _ _ hi' hi rfl
  rw [State.equal_function]
  constructor
  · intro heq
    obtain ⟨r', hr', j, hj⟩ := hfrom g hg
    obtain ⟨rfl, rfl⟩ := hapart.identity_inj r hr r' hr' i j _ _ hi hj heq
    exact hj
  · intro hg
    exact (hi.identity_eq_iff hg).mpr rfl

/-- A function whose result was made by an arm that has a pattern and is the default too, called twice. -/
def mixedArm : Source :=
  let made : List (Stmt Unit) := [.function (.mk () "a" [] [] 1)]
  let choice : Expr Unit := .select (.place (.variable "x" 1)) [.mk [.string "p" 1] true made] 1
  let call (argument : String) : Expr Unit :=
    .call (.place (.variable "m" 1)) [.string argument 1] 1
  [.function (.mk () "m" ["x"] [.expression choice 1] 1), .expression (.array [call "p", call "q"] 1) 1]

theorem mixedArm_made :
    ((State.initial 8).newGlobal.2.runBlock? ⟨0⟩ mixedArm).map (fun r => r.2.arrays) =
      some #[#[.function ⟨.mk 1 "a" [] [] 1, ⟨3⟩, none⟩, .function ⟨.mk 1 "a" [] [] 1, ⟨6⟩, none⟩]] := by
  cbv

/-- The function that is made where the pattern matches and the one that is made where none does are of
different scopes, and they are equal. -/
theorem mixedArm_equal_functions :
    let text := "fn m(x) \x7bmatch x \x7b'p', default => \x7bfn a() \x7b\x7d\x7d\x7d\x7d [m('p'), m('q')]"
    let s := (State.initial 8).newGlobal.2
    let run := Eval.perform (.block ⟨0⟩ (s.load mixedArm).1)
    let a (scope : ScopeId) : Closure := ⟨.mk 1 "a" [] [] 1, scope, none⟩
    ∃ tokens, tokenize text = .ok tokens ∧ parseTokens tokens = .ok mixedArm ∧
      run.Shows (s.load mixedArm).2 (a ⟨3⟩) ∧ run.Shows (s.load mixedArm).2 (a ⟨6⟩) ∧
      ∃ r ∈ [Reading.mk tokens 0], ∃ i t, r.Introduces i (a ⟨3⟩).function ∧
        r.tokens[i]? = some t ∧ t.kind.Introduces ∧ (a ⟨3⟩).function.line = t.line ∧
        (∀ r' ∈ [Reading.mk tokens 0], ∀ i', r'.Introduces i' (a ⟨3⟩).function → r' = r ∧ i' = i) ∧
        ∀ s' : State, s'.equal (.function (a ⟨3⟩)) (.function (a ⟨6⟩)) = true ↔
          r.Introduces i (a ⟨6⟩).function := by
  intro text s run a
  have hparse : parse text = .ok mixedArm := by cbv
  obtain ⟨tokens, htokens, hsource⟩ := exists_tokens_of_parse hparse
  obtain ⟨⟨o, s'⟩, hrun, harrays⟩ := Option.map_eq_some_iff.mp mixedArm_made
  have hends : run.Ends (s.load mixedArm).2 o s' := ⟨_, hrun⟩
  have hitems : s'.arrays[0]? = some #[.function (a ⟨3⟩), .function (a ⟨6⟩)] :=
    congrArg (·[0]?) harrays
  have hshows : ∀ f : Closure, .function f ∈ #[Value.function (a ⟨3⟩), .function (a ⟨6⟩)] →
      run.Shows (s.load mixedArm).2 f :=
    fun f hf => ⟨_, _, hends.moment, .function f, rfl, .inl (.item hitems hf)⟩
  have hfirst := hshows (a ⟨3⟩) (by simp)
  have hsecond := hshows (a ⟨6⟩) (by simp)
  have hhistory : State.History [] s := .global (.initial 8)
  exact ⟨tokens, htokens, hsource, hfirst, hsecond,
    hhistory.equal_function_iff hsource hfirst hsecond⟩

end ScriptLang
