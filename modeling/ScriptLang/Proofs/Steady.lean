import ScriptLang.Interpreter

/-! The depth of calls and the depth they may get to are left alone by all operations on the state, and
nothing else depends on them. -/

namespace ScriptLang

variable {α β : Type}

namespace State

def limited (s : State) (depth maxDepth : Nat) : State :=
  { s with depth, maxDepth }

/-- What is read does not depend on how deep calls are. -/
def Blind (f : State → α) : Prop :=
  ∀ s depth maxDepth, f (s.limited depth maxDepth) = f s

/-- How deep calls are stays the same, and nothing else depends on it. -/
def Steady (f : State → α × State) : Prop :=
  ∀ s depth maxDepth,
    f (s.limited depth maxDepth) = ((f s).1, (f s).2.limited depth maxDepth)

variable {s : State} {depth maxDepth : Nat}

/-! ### Reading -/

@[simp]
theorem scope_limited {id : ScopeId} : (s.limited depth maxDepth).scope id = s.scope id :=
  rfl

@[simp]
theorem classOf_limited {id : ClassId} : (s.limited depth maxDepth).classOf id = s.classOf id :=
  rfl

@[simp]
theorem contents?_limited {c : Container} :
    (s.limited depth maxDepth).contents? c = s.contents? c := by
  cases c <;> rfl

@[simp]
theorem ofContents_limited {contents : Contents} :
    Layout.ofContents (s.limited depth maxDepth) contents = Layout.ofContents s contents := by
  cases contents <;> rfl

theorem displayIn_limited {path : List Container} {nested : Bool} {v : Value} :
    (s.limited depth maxDepth).displayIn path nested v = s.displayIn path nested v := by
  fun_induction State.displayIn s path nested v with
  | case12 path nested m payload ih => rw [displayIn, ih]
  | case14 path nested c hpath hnone =>
    rw [displayIn, dif_neg hpath]
    split
    · rfl
    · next h =>
      rw [contents?_limited, hnone] at h
      cases h
  | case15 path nested c hpath contents hcontents layout parts ih =>
    rw [displayIn, dif_neg hpath]
    split
    · next h =>
      rw [contents?_limited, hcontents] at h
      cases h
    · next contents' h =>
      rw [contents?_limited] at h
      obtain rfl := Option.some.inj (hcontents.symm.trans h)
      simp only [ofContents_limited, ih, layout, parts]
  | _ => simp_all [displayIn]

theorem display_limited {v : Value} : (s.limited depth maxDepth).display v = s.display v :=
  displayIn_limited

theorem equalIn_limited {path : List (Container × Container)} {a b : Value} :
    (s.limited depth maxDepth).equalIn path a b = s.equalIn path a b := by
  -- The comparison reads contents alone. The cases named here look at them or recurse.
  fun_induction State.equalIn s path a b with
  | case10 path m a n b ih => rw [equalIn, ih]
  | case13 path c d hne hpath a b ha hb pairs hpairs ih =>
    rw [equalIn, if_neg hne, dif_neg hpath]
    split
    · next a' b' ha' hb' =>
      rw [contents?_limited] at ha' hb'
      obtain rfl := Option.some.inj (ha.symm.trans ha')
      obtain rfl := Option.some.inj (hb.symm.trans hb')
      simp only [hpairs, ih]
    · next h => exact (h a b ha hb).elim
  | case14 path c d hne hpath a b ha hb hnone =>
    rw [equalIn, if_neg hne, dif_neg hpath]
    split
    · next a' b' ha' hb' =>
      rw [contents?_limited] at ha' hb'
      obtain rfl := Option.some.inj (ha.symm.trans ha')
      obtain rfl := Option.some.inj (hb.symm.trans hb')
      rw [hnone]
    · rfl
  | case15 path c d hne hpath h =>
    rw [equalIn, if_neg hne, dif_neg hpath]
    split
    · next a b ha hb =>
      rw [contents?_limited] at ha hb
      exact (h a b ha hb).elim
    · rfl
  | _ => simp_all [equalIn]

theorem equal_limited {a b : Value} : (s.limited depth maxDepth).equal a b = s.equal a b :=
  equalIn_limited

theorem owner?_limited {id : ScopeId} {name : String} :
    (s.limited depth maxDepth).owner? id name = s.owner? id name := by
  have hlocal : ∀ id, (s.limited depth maxDepth).isLocal id name = s.isLocal id name := fun _ => rfl
  fun_induction State.owner? s id name with
  | case1 id h => rw [owner?, hlocal, if_pos h]
  | case2 id h parent hparent hlt ih =>
    rw [owner?, hlocal, if_neg h, scope_limited, hparent]
    exact (if_pos hlt).trans ih
  | case3 id h parent hparent hlt =>
    rw [owner?, hlocal, if_neg h, scope_limited, hparent]
    exact if_neg hlt
  | case4 id h hparent => rw [owner?, hlocal, if_neg h, scope_limited, hparent]

theorem indexOf_limited {key : Value} {line : Nat} :
    (s.limited depth maxDepth).indexOf key line = s.indexOf key line := by
  cases key <;> simp only [indexOf, display_limited]

theorem keyName_limited {key : Value} : (s.limited depth maxDepth).keyName key = s.keyName key := by
  cases key <;> simp only [keyName, display_limited]

theorem required_limited : (s.limited depth maxDepth).required = s.required := by
  funext found name target line
  cases found <;> simp only [required, display_limited]

theorem lookup_limited {id : ScopeId} {name : String} {line : Nat} :
    (s.limited depth maxDepth).lookup id name line = s.lookup id name line := by
  simp only [lookup, binding?, owner?_limited, scope_limited]

theorem blind_lookup {id : ScopeId} {name : String} {line : Nat} :
    Blind (·.lookup id name line) :=
  fun _ _ _ => lookup_limited

theorem blind_assignment {id : ScopeId} {name : String} {v : Value} {line : Nat} :
    Blind (·.assignment id name v line) := by
  intro s depth maxDepth
  simp only [assignment, owner?_limited, scope_limited]

theorem blind_getMember {target key : Value} {line : Nat} :
    Blind (·.getMember target key line) := by
  intro s depth maxDepth
  simp only [getMember, indexOf_limited, keyName_limited, required_limited]
  rfl

theorem blind_memberWrite {target key v : Value} {line : Nat} :
    Blind (·.memberWrite target key v line) := by
  intro s depth maxDepth
  simp only [memberWrite, indexOf_limited, keyName_limited, display_limited]
  rfl

theorem blind_operate {operator : Operator} {a b : Value} {line : Nat} :
    Blind (·.operate operator a b line) := by
  intro s depth maxDepth
  simp only [operate, display_limited, equal_limited]

/-! ### Changing -/

theorem Steady.depth_eq {f : State → α × State} (h : Steady f) (s : State) :
    (f s).2.depth = s.depth :=
  congrArg (fun r => r.2.depth) (h s s.depth s.maxDepth)

theorem Steady.maxDepth_eq {f : State → α × State} (h : Steady f) (s : State) :
    (f s).2.maxDepth = s.maxDepth :=
  congrArg (fun r => r.2.maxDepth) (h s s.depth s.maxDepth)

theorem steady_enter {kind : ScopeKind} {parent : ScopeId} : Steady (·.enter kind parent) :=
  fun _ _ _ => rfl

theorem steady_write {w : Write} : Steady fun s => ((), s.write w) := by
  intro s depth maxDepth
  cases w <;> rfl

theorem bindArguments_limited {scope : ScopeId} {f : Closure} {arguments : List Value} :
    (s.limited depth maxDepth).bindArguments scope f arguments =
      (s.bindArguments scope f arguments).limited depth maxDepth := by
  have hfold : ∀ (pairs : List (String × Value)) (s : State),
      pairs.foldl (fun s pair => s.declare scope pair.1 pair.2 false) (s.limited depth maxDepth) =
        (pairs.foldl (fun s pair => s.declare scope pair.1 pair.2 false) s).limited depth maxDepth := by
    intro pairs
    induction pairs with
    | nil => exact fun _ => rfl
    | cons pair rest ih => exact fun s => ih (s.declare scope pair.1 pair.2 false)
  have hreceiver : (s.limited depth maxDepth).bindReceiver scope f.receiver =
      (s.bindReceiver scope f.receiver).limited depth maxDepth := by
    cases f.receiver <;> rfl
  rw [bindArguments, hreceiver, hfold]
  rfl

theorem steady_bindArguments {scope : ScopeId} {f : Closure} {arguments : List Value} :
    Steady fun s => ((), s.bindArguments scope f arguments) :=
  fun _ _ _ => Prod.ext rfl bindArguments_limited

theorem steady_push {name : String} {target item : Value} :
    Steady fun s => Native.push s name target item := by
  intro s depth maxDepth
  simp only [Native.push]
  split <;> rfl

theorem assert_limited {name : String} {v : Value} :
    Native.assert (s.limited depth maxDepth) name v = Native.assert s name v := by
  simp only [Native.assert, display_limited]

theorem steady_native {f : Native} {arguments : List Value} {scope : ScopeId} :
    Steady fun s => f.call s arguments scope := by
  obtain ⟨serial, name, builtin⟩ := f
  intro s depth maxDepth
  have hdisplay : (s.limited depth maxDepth).display = s.display := funext fun _ => display_limited
  cases builtin with
  | print =>
    simp only [Native.call, hdisplay]
    rfl
  | push =>
    rcases arguments with _ | ⟨target, _ | ⟨item, _ | ⟨v, rest⟩⟩⟩
    · rfl
    · rfl
    · exact steady_push s depth maxDepth
    · rfl
  | len | typeof => rcases arguments with _ | ⟨v, _ | ⟨w, rest⟩⟩ <;> rfl
  | str =>
    rcases arguments with _ | ⟨v, _ | ⟨w, rest⟩⟩
    · rfl
    · simp only [Native.call, hdisplay]
    · rfl
  | assert =>
    rcases arguments with _ | ⟨v, _ | ⟨w, rest⟩⟩
    · rfl
    · simp only [Native.call, assert_limited]
    · rfl
  | lookup =>
    simp only [Native.call, hdisplay, lookup_limited]
  | declare =>
    simp only [Native.call, hdisplay]
    rfl
  | sum | inLoop | scope | collect | throw => rfl

end State

end ScriptLang
