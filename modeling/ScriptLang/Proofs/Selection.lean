import ScriptLang.Proofs.Forest
import ScriptLang.Proofs.Log
import ScriptLang.Proofs.WellFormed

/-! Matches. The patterns are tried one after the other in the order of the arms, each from where the one
before has left off, and the first that matches decides. So there is at most one body that runs, and it is
the last thing to be evaluated. -/

namespace ScriptLang

/-- A match in the scope of its own, with the value that it is about. -/
structure Selection where
  scope : ScopeId
  scrutinee : Value

namespace Selection

/-- Whatever a match asks for is in its log. -/
def Hidden (_ : Task) : Prop := False

theorem not_hidden {t : Task} : ¬ Hidden t := id

/-- The member that is called in a call of such a value. -/
def member? : Value → Option Member
  | .member m | .tagged m _ => some m
  | _ => none

variable (m : Selection)

/-! ### Patterns -/

/-- The value of a pattern has to be equal to the value at hand, and binds nothing. -/
def compared (s : State) (v : Value) : PatternMatch :=
  if s.equal v m.scrutinee then .hit none else .miss

/-- A member of an enum matches the tagged values of that member, and binds the name to their payload. -/
inductive Opens (member : Member) (name : String) : PatternMatch → Prop
  | hit {n : Member} {payload : Value} (h : m.scrutinee = .tagged n payload)
      (hserial : n.enumeration.serial = member.enumeration.serial) (hname : n.name = member.name) :
      Opens member name (.hit (some (name, payload)))
  | miss (h : ∀ n payload, m.scrutinee = .tagged n payload →
      n.enumeration.serial = member.enumeration.serial → n.name ≠ member.name) :
      Opens member name .miss

/-- What is evaluated for a pattern, and what comes of it. In a call with a name for its only argument the
name is not evaluated if the callee is a member of an enum. -/
inductive Tries : Expr Nat → State → List Event → Except Signal PatternMatch → State → Prop
  | value {pattern : Expr Nat} {s s' : State} {o : Outcome} (hplain : pattern.nameCall? = none)
      (h : (Event.evaluated m.scope pattern s o s').Holds) :
      Tries pattern s [.evaluated m.scope pattern s o s'] (o.map (m.compared s')) s'
  | callee {callee : Expr Nat} {name : String} {nameLine line : Nat} {s s' : State} {signal : Signal}
      (h : (Event.evaluated m.scope callee s (.error signal) s').Holds) :
      Tries (.call callee [.place (.variable name nameLine)] line) s
        [.evaluated m.scope callee s (.error signal) s'] (.error signal) s'
  | member {callee : Expr Nat} {name : String} {nameLine line : Nat} {s s' : State} {v : Value}
      {member : Member} {found : PatternMatch} (h : (Event.evaluated m.scope callee s (.ok v) s').Holds)
      (hmember : member? v = some member) (hopens : m.Opens member name found) :
      Tries (.call callee [.place (.variable name nameLine)] line) s
        [.evaluated m.scope callee s (.ok v) s'] (.ok found) s'
  | argument {callee : Expr Nat} {name : String} {nameLine line : Nat} {s s₁ s' : State} {v : Value}
      {signal : Signal} (h : (Event.evaluated m.scope callee s (.ok v) s₁).Holds) (hmember : member? v = none)
      (hname : (Event.evaluated m.scope (.place (.variable name nameLine)) s₁ (.error signal) s').Holds) :
      Tries (.call callee [.place (.variable name nameLine)] line) s
        [.evaluated m.scope callee s (.ok v) s₁,
          .evaluated m.scope (.place (.variable name nameLine)) s₁ (.error signal) s'] (.error signal) s'
  | call {callee : Expr Nat} {name : String} {nameLine line : Nat} {s s₁ s₂ s' : State} {v argument : Value}
      {log : List Event} {o : Outcome} (h : (Event.evaluated m.scope callee s (.ok v) s₁).Holds)
      (hmember : member? v = none)
      (hname : (Event.evaluated m.scope (.place (.variable name nameLine)) s₁ (.ok argument) s₂).Holds)
      (hcall : (Eval.callValue v [argument] m.scope line).Logs Hidden s₂ log o s') :
      Tries (.call callee [.place (.variable name nameLine)] line) s
        (.evaluated m.scope callee s (.ok v) s₁ ::
          .evaluated m.scope (.place (.variable name nameLine)) s₁ (.ok argument) s₂ :: log)
        (o.map (m.compared s')) s'

/-- The patterns are tried in order, and none matches. -/
inductive Misses : List (Expr Nat) → State → List Event → State → Prop
  | nil {s : State} : Misses [] s [] s
  | cons {pattern : Expr Nat} {rest : List (Expr Nat)} {s s₁ s' : State} {front back : List Event}
      (h : m.Tries pattern s front (.ok .miss) s₁) (hrest : Misses rest s₁ back s') :
      Misses (pattern :: rest) s (front ++ back) s'

/-! ### Bodies -/

/-- The scope of a body, which holds what the pattern has bound and nothing else. -/
def entered (binding : Option (String × Value)) (s : State) : State :=
  let inner := (s.enter .child m.scope).1
  match binding with
  | none => (s.enter .child m.scope).2
  | some (name, payload) => (s.enter .child m.scope).2.declare inner name payload false

def ran (binding : Option (String × Value)) (body : List (Stmt Nat)) (s : State) (o : Outcome)
    (s' : State) : Event :=
  ((.block (s.enter .child m.scope).1 body, m.entered binding s), o, s')

/-- What has been tried, which body has run thereupon, if any, and how the match ends. -/
inductive Chooses (default : Option (List (Stmt Nat))) (cases : List (Expr Nat × List (Stmt Nat)))
    (s : State) : List Event → Option Event → Outcome → State → Prop
  | cut {front back : List (Expr Nat × List (Stmt Nat))} {pattern : Expr Nat} {body : List (Stmt Nat)}
      {missed tried : List Event} {s₁ s' : State} {signal : Signal}
      (hcases : cases = front ++ (pattern, body) :: back)
      (hmisses : m.Misses (front.map Prod.fst) s missed s₁)
      (htries : m.Tries pattern s₁ tried (.error signal) s') :
      Chooses default cases s (missed ++ tried) none (.error signal) s'
  | arm {front back : List (Expr Nat × List (Stmt Nat))} {pattern : Expr Nat} {body : List (Stmt Nat)}
      {missed tried : List Event} {s₁ s₂ s' : State} {binding : Option (String × Value)} {o : Outcome}
      (hcases : cases = front ++ (pattern, body) :: back)
      (hmisses : m.Misses (front.map Prod.fst) s missed s₁)
      (htries : m.Tries pattern s₁ tried (.ok (.hit binding)) s₂)
      (hbody : (m.ran binding body s₂ o s').Holds) :
      Chooses default cases s (missed ++ tried) (some (m.ran binding body s₂ o s')) o s'
  | default {body : List (Stmt Nat)} {missed : List Event} {s₁ s' : State} {o : Outcome}
      (hdefault : default = some body) (hmisses : m.Misses (cases.map Prod.fst) s missed s₁)
      (hbody : (m.ran none body s₁ o s').Holds) :
      Chooses default cases s missed (some (m.ran none body s₁ o s')) o s'
  | null {missed : List Event} {s' : State} (hdefault : default = none)
      (hmisses : m.Misses (cases.map Prod.fst) s missed s') :
      Chooses default cases s missed none (.ok .null) s'

/-! ### Trying a pattern -/

variable {m} {s s' : State} {log : List Event} {o : Outcome}

theorem opens_iff {member : Member} {name : String} {found : PatternMatch} :
    m.Opens member name found ↔ found = member.destructure name m.scrutinee := by
  have hsame : ∀ n : Member, n.isSame member = true ↔
      n.enumeration.serial = member.enumeration.serial ∧ n.name = member.name := by
    simp [Member.isSame]
  constructor
  · rintro (⟨hscrutinee, hserial, hname⟩ | h)
    · rw [hscrutinee, Member.destructure, if_pos ((hsame _).mpr ⟨hserial, hname⟩)]
    · unfold Member.destructure
      split
      · next n payload hscrutinee =>
        rw [if_neg fun h' => h n payload hscrutinee ((hsame n).mp h').1 ((hsame n).mp h').2]
      · rfl
  · rintro rfl
    unfold Member.destructure
    split
    · next n payload hscrutinee =>
      split
      · next h => exact .hit hscrutinee ((hsame n).mp h).1 ((hsame n).mp h).2
      · next h =>
        refine .miss fun n' payload' hscrutinee' hserial hname => h ?_
        cases hscrutinee.symm.trans hscrutinee'
        exact (hsame n).mpr ⟨hserial, hname⟩
    · next h => exact .miss fun n payload hscrutinee => absurd hscrutinee (h n payload)

theorem logs_compare {c : Eval Value} {own : Task → Prop} {r : Except Signal PatternMatch} :
    (c >>= (Eval.compare · m.scrutinee)).Logs own s log r s' ↔
      ∃ o : Outcome, c.Logs own s log o s' ∧ r = o.map (m.compared s') := by
  have hcompare : ∀ v s₁ back, (Eval.compare v m.scrutinee).Logs own s₁ back r s' ↔
      back = [] ∧ r = .ok (m.compared s₁ v) ∧ s' = s₁ := fun v s₁ back => Eval.logs_answer rfl
  rw [Eval.logs_bind]
  simp only [hcompare]
  constructor
  · rintro (⟨signal, hc, rfl⟩ | ⟨v, _, front, _, rfl, hc, rfl, rfl, rfl⟩)
    · exact ⟨_, hc, rfl⟩
    · rw [List.append_nil]
      exact ⟨_, hc, rfl⟩
  · rintro ⟨signal | v, hc, rfl⟩
    · exact .inl ⟨signal, hc, rfl⟩
    · exact .inr ⟨v, s', log, [], (List.append_nil log).symm, hc, rfl, rfl, rfl⟩

theorem tryPattern_of_nameCall?_eq_none {pattern : Expr Nat} (h : pattern.nameCall? = none) :
    Eval.tryPattern m.scope m.scrutinee pattern =
      (Eval.expression m.scope pattern >>= (Eval.compare · m.scrutinee)) := by
  rw [Eval.tryPattern, h]

/-- The call goes ahead with its callee, which is no member. -/
def callWith (m : Selection) (v : Value) (name : String) (nameLine line : Nat) : Eval PatternMatch := do
  let argument ← Eval.expression m.scope (.place (.variable name nameLine))
  Eval.compare (← Eval.callValue v [argument] m.scope line) m.scrutinee

theorem tryPattern_nameCall {callee : Expr Nat} {name : String} {nameLine line : Nat} :
    Eval.tryPattern m.scope m.scrutinee (.call callee [.place (.variable name nameLine)] line) =
      Eval.expression m.scope callee >>= fun v =>
        match member? v with
        | some member => return member.destructure name m.scrutinee
        | none => m.callWith v name nameLine line := by
  refine congrArg (Eval.expression m.scope callee >>= ·) (funext fun v => ?_)
  cases v <;> rfl

theorem logs_callWith {v : Value} {name : String} {nameLine line : Nat} {r : Except Signal PatternMatch} :
    (m.callWith v name nameLine line).Logs Hidden s log r s' ↔
      (∃ signal, log = [.evaluated m.scope (.place (.variable name nameLine)) s (.error signal) s'] ∧
        (Event.evaluated m.scope (.place (.variable name nameLine)) s (.error signal) s').Holds ∧
        r = .error signal) ∨
      ∃ argument s₁ rest o,
        log = .evaluated m.scope (.place (.variable name nameLine)) s (.ok argument) s₁ :: rest ∧
        (Event.evaluated m.scope (.place (.variable name nameLine)) s (.ok argument) s₁).Holds ∧
        (Eval.callValue v [argument] m.scope line).Logs Hidden s₁ rest o s' ∧ r = o.map (m.compared s') := by
  rw [callWith, Eval.expression, Eval.logs_perform_bind not_hidden]
  simp only [logs_compare]
  refine or_congr Iff.rfl ?_
  constructor
  · rintro ⟨argument, s₁, rest, hlog, hname, o, hcall, hr⟩
    exact ⟨argument, s₁, rest, o, hlog, hname, hcall, hr⟩
  · rintro ⟨argument, s₁, rest, o, hlog, hname, hcall, hr⟩
    exact ⟨argument, s₁, rest, hlog, hname, o, hcall, hr⟩

theorem logs_tryPattern {pattern : Expr Nat} {r : Except Signal PatternMatch} :
    (Eval.tryPattern m.scope m.scrutinee pattern).Logs Hidden s log r s' ↔ m.Tries pattern s log r s' := by
  cases hcall : pattern.nameCall? with
  | none =>
    rw [tryPattern_of_nameCall?_eq_none hcall, logs_compare]
    simp only [Eval.expression, Eval.logs_perform not_hidden]
    constructor
    · rintro ⟨o, ⟨rfl, h⟩, rfl⟩
      exact .value hcall h
    · intro h
      cases h with
      | value _ h => exact ⟨_, ⟨rfl, h⟩, rfl⟩
      | callee | member | argument | call => cases hcall
  | some parts =>
    obtain ⟨callee, name, nameLine, line⟩ := parts
    obtain rfl := Expr.nameCall?_eq_some hcall
    rw [tryPattern_nameCall, Eval.expression, Eval.logs_perform_bind not_hidden]
    constructor
    · rintro (⟨signal, rfl, h, rfl⟩ | ⟨v, s₁, rest, rfl, h, hrest⟩)
      · exact .callee h
      -- Only a member of an enum takes the payload apart, and then the name is not evaluated.
      cases hmember : member? v with
      | some member =>
        rw [hmember] at hrest
        obtain ⟨rfl, rfl, rfl⟩ := Eval.logs_pure.mp hrest
        exact .member h hmember (opens_iff.mpr rfl)
      | none =>
        rw [hmember] at hrest
        obtain ⟨signal, rfl, hname, rfl⟩ | ⟨argument, s₂, rest, o, rfl, hname, hcall, rfl⟩ :=
          logs_callWith.mp hrest
        · exact .argument h hmember hname
        · exact .call h hmember hname hcall
    · intro h
      cases h with
      | value hplain => cases hplain
      | callee h => exact .inl ⟨_, rfl, h, rfl⟩
      | member h hmember hopens =>
        refine .inr ⟨_, _, _, rfl, h, ?_⟩
        rw [hmember]
        exact Eval.logs_pure.mpr ⟨rfl, congrArg Except.ok (opens_iff.mp hopens), rfl⟩
      | argument h hmember hname =>
        refine .inr ⟨_, _, _, rfl, h, ?_⟩
        rw [hmember]
        exact logs_callWith.mpr (.inl ⟨_, rfl, hname, rfl⟩)
      | call h hmember hname hcall =>
        refine .inr ⟨_, _, _, rfl, h, ?_⟩
        rw [hmember]
        exact logs_callWith.mpr (.inr ⟨_, _, _, _, rfl, hname, hcall, rfl⟩)

/-! ### Running through the cases -/

variable {default : Option (List (Stmt Nat))} {cases rest : List (Expr Nat × List (Stmt Nat))}
  {pattern : Expr Nat} {body : List (Stmt Nat)} {tried : List Event} {ran : Option Event}

theorem logs_runArm {binding : Option (String × Value)} :
    (Eval.runArm m.scope binding body).Logs Hidden s log o s' ↔
      log = [m.ran binding body s o s'] ∧ (m.ran binding body s o s').Holds := by
  rw [Eval.runArm, Eval.logs_create_bind]
  rcases binding with _ | ⟨name, payload⟩ <;> exact Eval.logs_perform not_hidden

/-- The patterns decide from the front: the first one cuts the match short, or it matches, or the others are
left to try. -/
theorem chooses_cons : m.Chooses default ((pattern, body) :: rest) s tried ran o s' ↔
    (∃ signal, m.Tries pattern s tried (.error signal) s' ∧ ran = none ∧ o = .error signal) ∨
    (∃ binding s₁, m.Tries pattern s tried (.ok (.hit binding)) s₁ ∧
      ran = some (m.ran binding body s₁ o s') ∧ (m.ran binding body s₁ o s').Holds) ∨
    ∃ front back s₁, tried = front ++ back ∧ m.Tries pattern s front (.ok .miss) s₁ ∧
      m.Chooses default rest s₁ back ran o s' := by
  have hfirst : (pattern, body) :: rest = [] ++ (pattern, body) :: rest := rfl
  have hnext : ∀ {front back}, rest = front ++ back →
      (pattern, body) :: rest = ((pattern, body) :: front) ++ back := fun h => congrArg _ h
  constructor
  · intro h
    cases h with
    | @cut front _ _ _ _ _ _ _ _ hcases hmisses htries =>
      -- Either the first pattern has decided, or one of the others has and the first has missed.
      cases front with
      | nil =>
        cases hcases
        cases hmisses
        exact .inl ⟨_, htries, rfl, rfl⟩
      | cons =>
        cases hcases
        obtain - | ⟨h, hmisses⟩ := hmisses
        exact .inr (.inr ⟨_, _, _, List.append_assoc .., h, .cut rfl hmisses htries⟩)
    | @arm front _ _ _ _ _ _ _ _ _ _ hcases hmisses htries hbody =>
      cases front with
      | nil =>
        cases hcases
        cases hmisses
        exact .inr (.inl ⟨_, _, htries, rfl, hbody⟩)
      | cons =>
        cases hcases
        obtain - | ⟨h, hmisses⟩ := hmisses
        exact .inr (.inr ⟨_, _, _, List.append_assoc .., h, .arm rfl hmisses htries hbody⟩)
    | default hdefault hmisses hbody =>
      obtain - | ⟨h, hmisses⟩ := hmisses
      exact .inr (.inr ⟨_, _, _, rfl, h, .default hdefault hmisses hbody⟩)
    | null hdefault hmisses =>
      obtain - | ⟨h, hmisses⟩ := hmisses
      exact .inr (.inr ⟨_, _, _, rfl, h, .null hdefault hmisses⟩)
  · rintro (⟨signal, h, rfl, rfl⟩ | ⟨binding, s₁, h, rfl, hbody⟩ | ⟨front, back, s₁, rfl, h, hrest⟩)
    · exact .cut hfirst .nil h
    · exact .arm hfirst .nil h hbody
    · cases hrest with
      | cut hcases hmisses htries =>
        rw [← List.append_assoc]
        exact .cut (hnext hcases) (.cons h hmisses) htries
      | arm hcases hmisses htries hbody =>
        rw [← List.append_assoc]
        exact .arm (hnext hcases) (.cons h hmisses) htries hbody
      | default hdefault hmisses hbody => exact .default hdefault (.cons h hmisses) hbody
      | null hdefault hmisses => exact .null hdefault (.cons h hmisses)

theorem chooses_nil : m.Chooses default [] s tried ran o s' ↔
    tried = [] ∧ ((∃ body, default = some body ∧ ran = some (m.ran none body s o s') ∧
      (m.ran none body s o s').Holds) ∨ default = none ∧ ran = none ∧ o = .ok .null ∧ s' = s) := by
  constructor
  · intro h
    cases h with
    | cut hcases | arm hcases => cases List.append_ne_nil_of_right_ne_nil _ (List.cons_ne_nil _ _) hcases.symm
    | default hdefault hmisses hbody =>
      cases hmisses
      exact ⟨rfl, .inl ⟨_, hdefault, rfl, hbody⟩⟩
    | null hdefault hmisses =>
      cases hmisses
      exact ⟨rfl, .inr ⟨hdefault, rfl, rfl, rfl⟩⟩
  · rintro ⟨rfl, ⟨body, hdefault, rfl, hbody⟩ | ⟨hdefault, rfl, rfl, rfl⟩⟩
    · exact .default hdefault .nil hbody
    · exact .null hdefault .nil

theorem logs_tryPatterns : (Eval.tryPatterns m.scope m.scrutinee default cases).Logs Hidden s log o s' ↔
    ∃ tried ran, log = tried ++ ran.toList ∧ m.Chooses default cases s tried ran o s' := by
  -- The patterns are tried from the front, each in the state that the one before it has left.
  induction cases generalizing s log with
  | nil =>
    simp only [chooses_nil]
    cases default with
    | none =>
      refine Eval.logs_pure.trans ⟨?_, ?_⟩
      · rintro ⟨rfl, rfl, rfl⟩
        exact ⟨[], none, rfl, rfl, .inr ⟨rfl, rfl, rfl, rfl⟩⟩
      · rintro ⟨_, _, rfl, rfl, ⟨_, ⟨⟩, _⟩ | ⟨-, rfl, rfl, rfl⟩⟩
        exact ⟨rfl, rfl, rfl⟩
    | some body =>
      change (Eval.runArm m.scope none body).Logs _ _ _ _ _ ↔ _
      rw [logs_runArm]
      constructor
      · rintro ⟨rfl, hbody⟩
        exact ⟨[], _, rfl, rfl, .inl ⟨body, rfl, rfl, hbody⟩⟩
      · rintro ⟨_, _, rfl, rfl, ⟨_, ⟨⟩, rfl, hbody⟩ | ⟨⟨⟩, _⟩⟩
        exact ⟨rfl, hbody⟩
  | cons first rest ih =>
    obtain ⟨pattern, body⟩ := first
    rw [Eval.tryPatterns, Eval.logs_bind]
    simp only [logs_tryPattern, chooses_cons]
    constructor
    · rintro (⟨signal, h, rfl⟩ | ⟨binding | _, s₁, front, back, rfl, h, hback⟩)
      · exact ⟨log, none, (List.append_nil log).symm, .inl ⟨signal, h, rfl, rfl⟩⟩
      · obtain ⟨tried, ran, rfl, hrest⟩ := ih.mp hback
        exact ⟨_, ran, (List.append_assoc ..).symm, .inr (.inr ⟨front, tried, s₁, rfl, h, hrest⟩)⟩
      · obtain ⟨rfl, hbody⟩ := logs_runArm.mp hback
        exact ⟨front, _, rfl, .inr (.inl ⟨_, s₁, h, rfl, hbody⟩)⟩
    · rintro ⟨tried, ran, rfl, ⟨signal, h, rfl, rfl⟩ | ⟨binding, s₁, h, rfl, hbody⟩ |
        ⟨front, back, s₁, rfl, h, hrest⟩⟩
      · rw [Option.toList_none, List.append_nil]
        exact .inl ⟨signal, h, rfl⟩
      · exact .inr ⟨.hit binding, s₁, tried, _, rfl, h, logs_runArm.mpr ⟨rfl, hbody⟩⟩
      · exact .inr ⟨.miss, s₁, front, _, List.append_assoc .., h, ih.mpr ⟨back, ran, rfl, hrest⟩⟩

/-! ### Arms -/

section Arms

variable {front back : List (Arm Nat)} {patterns patterns' : List (Expr Nat)} {d d' : Bool}

theorem cases_append : Arm.cases (front ++ back) = Arm.cases front ++ Arm.cases back :=
  List.flatMap_append

theorem default?_append : Arm.default? (front ++ back) = (Arm.default? front).or (Arm.default? back) := by
  rw [Arm.default?, List.find?_append, Option.map_or, ← Arm.default?, ← Arm.default?]

theorem cases_split : Arm.cases (.mk patterns d body :: .mk patterns' d' body :: back) =
    Arm.cases (.mk (patterns ++ patterns') (d || d') body :: back) := by
  simp only [Arm.cases, List.flatMap_cons, Arm.patterns, Arm.body, List.map_append, List.append_assoc]

theorem default?_split : Arm.default? (.mk patterns d body :: .mk patterns' d' body :: back) =
    Arm.default? (.mk (patterns ++ patterns') (d || d') body :: back) := by
  cases d <;> cases d' <;> rfl

theorem cases_default : Arm.cases (.mk patterns true body :: back) =
    Arm.cases (.mk patterns false body :: (back ++ [.mk [] true body])) := by
  have hnone : Arm.cases [.mk [] true body] = [] := rfl
  have hfront : ∀ d back, Arm.cases (.mk patterns d body :: back) =
      patterns.map (·, body) ++ Arm.cases back := fun d back => List.flatMap_cons
  rw [hfront, hfront, cases_append, hnone, List.append_nil]

theorem default?_eq_none (h : ∀ arm ∈ front, arm.isDefault = false) : Arm.default? front = none := by
  rw [Arm.default?, List.find?_eq_none.mpr fun arm harm => by simp [h arm harm]]
  rfl

theorem default?_default (h : ∀ arm ∈ back, arm.isDefault = false) :
    Arm.default? (.mk patterns true body :: back) =
      Arm.default? (.mk patterns false body :: (back ++ [.mk [] true body])) := by
  change some body = Arm.default? (back ++ [.mk [] true body])
  rw [default?_append, default?_eq_none h]
  rfl

end Arms

/-! ### The scope of a body -/

theorem parent_entered {binding : Option (String × Value)} :
    ((m.entered binding s).scope (s.enter .child m.scope).1).parent = some m.scope := by
  have hfresh := congrArg Scope.parent (State.scope_newScope (s := s)
    (c := ⟨some m.scope, .empty, s.permitsLoopControl m.scope⟩))
  rcases binding with _ | ⟨name, payload⟩
  · exact hfresh
  · exact (State.rebinds_declare State.enter_fst_lt).parent_eq.trans hfresh

theorem get?_entered_iff {binding : Option (String × Value)} {name : String} {b : Binding} :
    ((m.entered binding s).scope (s.enter .child m.scope).1).bindings.get? name = some b ↔
      ∃ payload, binding = some (name, payload) ∧ b = ⟨payload, false⟩ := by
  have hfresh : ((s.enter .child m.scope).2.scope (s.enter .child m.scope).1).bindings = .empty :=
    congrArg Scope.bindings State.scope_newScope
  rcases binding with _ | ⟨key, payload⟩
  · refine iff_of_false (fun h => ?_) nofun
    rw [entered, hfresh] at h
    cases h
  · have hbinds : (s.enter .child m.scope).2.Rebinds (s.enter .child m.scope).1 key ⟨payload, false⟩
        (m.entered (some (key, payload)) s) := State.rebinds_declare State.enter_fst_lt
    have hempty : (Record.empty : Record Binding).get? name = none := rfl
    rw [hbinds.get?_eq, hfresh, hempty]
    by_cases hname : name = key
    · simp [hname, eq_comm]
    · simp [hname, eq_comm]

end Selection

open Selection in
/-- A match evaluates its scrutinee and then tries the patterns. No more of its arms is to be seen than the
patterns in order, each with its body, and the body of the default. So arms may be split and merged, and a
default among patterns is one at the end as well. The body that runs has a new scope, which binds the payload
and nothing else. -/
theorem Selection.select_iff (scope : ScopeId) (scrutinee : Expr Nat) (line : Nat) :
    (∀ (arms : List (Arm Nat)) (s : State) (log : List Event) (o : Outcome) (s' : State),
      (Eval.evaluate scope (.select scrutinee arms line)).Logs Hidden s log o s' ↔
        let inner := (s.enter .child scope).1
        let entered := (s.enter .child scope).2
        (∃ signal, log = [.evaluated inner scrutinee entered (.error signal) s'] ∧
          (Event.evaluated inner scrutinee entered (.error signal) s').Holds ∧ o = .error signal) ∨
        ∃ v s₁ tried ran,
          log = .evaluated inner scrutinee entered (.ok v) s₁ :: (tried ++ ran.toList) ∧
          (Event.evaluated inner scrutinee entered (.ok v) s₁).Holds ∧
          (Selection.mk inner v).Chooses (Arm.default? arms) (Arm.cases arms) s₁ tried ran o s') ∧
    (∀ (arms : List (Arm Nat)) (s : State) (o : Outcome) (s' : State),
      (Eval.evaluate scope (.select scrutinee arms line)).Ends s o s' ↔
        ∃ log, (Eval.evaluate scope (.select scrutinee arms line)).Logs Hidden s log o s') ∧
    (∀ arms arms' : List (Arm Nat), Arm.cases arms = Arm.cases arms' →
      Arm.default? arms = Arm.default? arms' →
      Eval.evaluate scope (.select scrutinee arms line) =
        Eval.evaluate scope (.select scrutinee arms' line)) ∧
    (∀ (front back : List (Arm Nat)) (patterns patterns' : List (Expr Nat)) (d d' : Bool)
      (body : List (Stmt Nat)),
      Eval.evaluate scope
          (.select scrutinee (front ++ .mk patterns d body :: .mk patterns' d' body :: back) line) =
        Eval.evaluate scope
          (.select scrutinee (front ++ .mk (patterns ++ patterns') (d || d') body :: back) line)) ∧
    (∀ (front back : List (Arm Nat)) (patterns : List (Expr Nat)) (body : List (Stmt Nat)),
      (front ++ .mk patterns true body :: back).Pairwise Arm.OneDefault →
      Eval.evaluate scope (.select scrutinee (front ++ .mk patterns true body :: back) line) =
        Eval.evaluate scope
          (.select scrutinee (front ++ .mk patterns false body :: (back ++ [.mk [] true body])) line)) ∧
    ∀ (m : Selection) (binding : Option (String × Value)) (s : State),
      (s.enter .child m.scope).1.index = s.scopes.size ∧
      ((m.entered binding s).scope (s.enter .child m.scope).1).parent = some m.scope ∧
      ∀ name b, ((m.entered binding s).scope (s.enter .child m.scope).1).bindings.get? name = some b ↔
        ∃ payload, binding = some (name, payload) ∧ b = ⟨payload, false⟩ := by
  -- A match reads its arms by their patterns and their default alone.
  have hsame : ∀ arms arms' : List (Arm Nat), Arm.cases arms = Arm.cases arms' →
      Arm.default? arms = Arm.default? arms' →
      Eval.evaluate scope (.select scrutinee arms line) =
        Eval.evaluate scope (.select scrutinee arms' line) := by
    intro arms arms' hcases hdefault
    change Eval.select scope scrutinee arms = Eval.select scope scrutinee arms'
    rw [Eval.select, Eval.select, hcases, hdefault]
  refine ⟨fun arms s log o s' => ?_, fun arms s o s' => (Eval.exists_logs_iff_ends _).symm, hsame,
    fun front back patterns patterns' d d' body => hsame _ _ ?_ ?_,
    fun front back patterns body hone => hsame _ _ ?_ ?_,
    fun m binding s => ⟨rfl, parent_entered, fun name b => get?_entered_iff⟩⟩
  · change (Eval.select scope scrutinee arms).Logs _ _ _ _ _ ↔ _
    rw [Eval.select, Eval.logs_create_bind, Eval.expression, Eval.logs_perform_bind Selection.not_hidden]
    refine or_congr Iff.rfl (exists_congr fun v => exists_congr fun s₁ => ?_)
    constructor
    · rintro ⟨rest, rfl, h, hrest⟩
      obtain ⟨tried, ran, rfl, hchooses⟩ :=
        (logs_tryPatterns (m := ⟨(s.enter .child scope).1, v⟩)).mp hrest
      exact ⟨tried, ran, rfl, h, hchooses⟩
    · rintro ⟨tried, ran, rfl, h, hchooses⟩
      exact ⟨_, rfl, h, logs_tryPatterns.mpr ⟨tried, ran, rfl, hchooses⟩⟩
  · rw [cases_append, cases_append, cases_split]
  · rw [default?_append, default?_append, default?_split]
  · rw [cases_append, cases_append, cases_default]
  · have hback : ∀ arm ∈ back, arm.isDefault = false := fun arm harm =>
      ((List.pairwise_cons.mp (List.pairwise_append.mp hone).2.1).1 arm harm).resolve_left nofun
    rw [default?_append, default?_append, default?_default hback]

open Selection in
/-- Of the arms `"a", default => "d"` and `"b" => "hit"` the second is chosen for `"b"`, after four tasks, and
the first is the same as two. -/
theorem Selection.select_iff_mixed :
    let s := (State.initial 1).newRoot.2
    let mixed : Arm Nat := .mk [.string "a" 1] true [.expression (.string "d" 1) 1]
    let plain : Arm Nat := .mk [.string "b" 1] false [.expression (.string "hit" 1) 1]
    (∃ log s', (Eval.evaluate ⟨0⟩ (.select (.string "b" 1) [mixed, plain] 1)).Logs Hidden s log
      (.ok (.string "hit")) s' ∧ log.length = 4) ∧
    [mixed, plain].Pairwise Arm.OneDefault ∧
    Eval.evaluate ⟨0⟩ (.select (.string "b" 1) [mixed, plain] 1) =
      Eval.evaluate ⟨0⟩ (.select (.string "b" 1)
        [.mk [.string "a" 1] false mixed.body, plain, .mk [] true mixed.body] 1) := by
  intro s mixed plain
  obtain ⟨hlogs, -, -, -, hmixed, -⟩ := Selection.select_iff ⟨0⟩ (.string "b" 1) 1
  have hone : [mixed, plain].Pairwise Arm.OneDefault :=
    .cons (fun arm harm => .inr (List.mem_singleton.mp harm ▸ rfl)) (.cons nofun .nil)
  have hstring : ∀ scope s text, (Event.evaluated scope (.string text 1) s (.ok (.string text)) s).Holds :=
    fun scope s text => Eval.gives_pure.ends
  let m : Selection := ⟨(s.enter .child ⟨0⟩).1, .string "b"⟩
  have hvalue : ∀ text s found, m.compared s (.string text) = found →
      m.Tries (.string text 1) s [.evaluated m.scope (.string text 1) s (.ok (.string text)) s]
        (.ok found) s :=
    fun text s found hfound => hfound ▸ .value rfl (hstring m.scope s text)
  have hmiss : ∀ s, m.compared s (.string "a") = .miss := by
    simp [Selection.compared, State.equal, State.equalIn, m]
  have hhit : ∀ s, m.compared s (.string "b") = .hit none := by
    simp [Selection.compared, State.equal, State.equalIn, m]
  have hbody : (m.ran none plain.body (s.enter .child ⟨0⟩).2 (.ok (.string "hit")) _).Holds := ⟨3, rfl⟩
  have hcases : Arm.cases [mixed, plain] =
    [(.string "a" 1, mixed.body)] ++ (.string "b" 1, plain.body) :: [] := rfl
  have hchooses : m.Chooses (Arm.default? [mixed, plain]) _ _ _ _ _ _ :=
    .arm hcases (.cons (hvalue _ _ _ (hmiss _)) .nil) (hvalue _ _ _ (hhit _)) hbody
  exact ⟨⟨_, _, (hlogs _ s _ _ _).mpr (.inr ⟨_, _, _, _, rfl, hstring _ _ "b", hchooses⟩), rfl⟩, hone,
    hmixed [] [plain] _ _ hone⟩

end ScriptLang
