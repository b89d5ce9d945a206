import Clausal.Proofs.Trail.Coherence

/-!
A trail under calls in any order, refused ones among them. A call is carried out piece by piece on
the table, the log and the counter; still it is all or nothing, because it can only be refused
before the first piece. So whatever is called, the three records agree, and a checkpoint that is
never cut away can always be restored.
-/
namespace Clausal.Trail

inductive Call where
  | assign (v : Int) (b : Bool) (kind : Datum)
  | backtrackTo (token : Int)

/-- Work on the records of a trail. What was done before a fault is kept. -/
abbrev Work := EStateM Fault Trail

namespace Work

/-- A cell is only written if the table has it. -/
def write (v : Nat) (cell : Option Bool) : Work Unit := do
  let t ← get
  if v < t.values.size then set { t with values := t.values.setIfInBounds v cell }
  else throw (.noCell v)

def push (e : Entry) : Work Unit := do
  modify fun t => { t with entries := e :: t.entries }
  if e.kind = .decision then modify fun t => { t with level := t.level + 1 }

/-- Takes the newest entry off the log and clears its cell. -/
def pop : Work Unit := do
  match (← get).entries with
  | [] => pure ()
  | e :: rest =>
    modify fun t => { t with entries := rest }
    write e.var none
    if e.kind = .decision then modify fun t => { t with level := t.level - 1 }

def popMany : Nat → Work Unit
  | 0 => pure ()
  | n + 1 => do
    pop
    popMany n

def assign (v : Int) (b : Bool) (kind : Datum) : Work Unit := do
  let t ← get
  if 1 ≤ v ∧ v ≤ t.numVariables then
    match Entry.Kind.ofDatum? kind with
    | none => throw (.unknownKind kind)
    | some kind =>
      match t.values[v.toNat]? with
      | none => throw .outOfTable
      | some (some _) => throw (.alreadyAssigned v)
      | some none =>
        write v.toNat (some b)
        push ⟨v.toNat, b, kind⟩
  else throw (.variableOutside v t.numVariables)

def backtrackTo (token : Int) : Work Unit := do
  let t ← get
  if 0 ≤ token ∧ token ≤ t.size then popMany (t.size - token.toNat)
  else throw (.badCheckpoint token t.size)

end Work

namespace Call

/-- The call carried out piece by piece: whether it was refused, and the trail it leaves behind. -/
def execute : Call → Work Unit
  | .assign v b kind => Work.assign v b kind
  | .backtrackTo token => Work.backtrackTo token

/-- The call as a whole. -/
def perform (t : Trail) : Call → Except Fault Trail
  | .assign v b kind => t.assignNamed v b kind
  | .backtrackTo token => t.backtrackTo token

/-- The call as a whole, and the trail with it: a refused call has left it as it was. -/
def whole (t : Trail) (c : Call) : EStateM.Result Fault Trail Unit :=
  match c.perform t with
  | .ok u => .ok () u
  | .error e => .error e t

/-- The trail after the call, whether or not it was refused. -/
def after (t : Trail) (c : Call) : Trail :=
  match c.execute.run t with
  | .ok () u => u
  | .error _ u => u

end Call

/-- The trail after one call after the other. -/
def afterAll (t : Trail) (calls : List Call) : Trail := calls.foldl Call.after t

variable {n : Int} {s t u : Trail} {c : Call} {calls : List Call}

/-- Every entry has its cell in the table. -/
def Housed (t : Trail) : Prop := ∀ e ∈ t.entries, e.var < t.values.size

theorem Grows.housed (h : Grows (empty n) t) : t.Housed := by
  induction h with
  | refl => nofun
  | assign _ step ih =>
      obtain ⟨cell, rfl⟩ := values_getElem?_of_assign step
      obtain ⟨bound, _⟩ := Array.getElem?_eq_some_iff.1 cell
      intro e he
      rw [Array.size_setIfInBounds]
      cases he with
      | head => exact bound
      | tail _ he => exact ih e he

theorem Grows.undo (h : Grows (empty n) t) : Grows (empty n) t.undo := by
  cases h with
  | refl => exact .refl
  | assign grown step => rwa [undo_of_assign step]

namespace Work

theorem run_write {v : Nat} (h : v < t.values.size) (cell : Option Bool) :
    (write v cell).run t = .ok () { t with values := t.values.setIfInBounds v cell } := by
  simp [write, h]

theorem run_push (e : Entry) :
    (push e).run t = .ok () { t with
      entries := e :: t.entries
      level := if e.kind = .decision then t.level + 1 else t.level } := by
  by_cases decided : e.kind = .decision
  · simp [push, decided]
  · simp [push, decided]

theorem run_pop (h : t.Housed) : pop.run t = .ok () t.undo := by
  cases start : t.entries with
  | nil => simp [pop, undo, start]
  | cons e rest =>
      have cell : e.var < t.values.size := h e (start ▸ List.mem_cons_self)
      by_cases decided : e.kind = .decision
      · simp [pop, undo, start, run_write, cell, decided]
      · simp [pop, undo, start, run_write, cell, decided]

theorem run_popMany (grown : Grows (empty n) t) (count : Nat) :
    (popMany count).run t = .ok () (undoMany count t) := by
  induction count generalizing t with
  | zero => rfl
  | succ count ih => simp [popMany, undoMany, run_pop grown.housed, ih (grown.undo)]

/-- An assignment writes nothing before its last check. -/
theorem run_assign (t : Trail) (v : Int) (b : Bool) (kind : Datum) :
    (assign v b kind).run t = (Call.assign v b kind).whole t := by
  by_cases inside : 1 ≤ v ∧ v ≤ t.numVariables
  · cases known : Entry.Kind.ofDatum? kind with
    | none => simp [assign, Call.whole, Call.perform, assignNamed, inside, known]
    | some kind =>
        cases cell : t.values[v.toNat]? with
        | none =>
            simp [assign, Call.whole, Call.perform, assignNamed, Trail.assign, inside, known, cell]
        | some held =>
            obtain ⟨bound, _⟩ := Array.getElem?_eq_some_iff.1 cell
            cases held with
            | some _ =>
                simp [assign, Call.whole, Call.perform, assignNamed, Trail.assign, inside, known,
                  cell]
            | none =>
                simp [assign, Call.whole, Call.perform, assignNamed, Trail.assign, inside, known,
                  cell, run_write bound, run_push]
  · simp [assign, Call.whole, Call.perform, assignNamed, inside]

theorem run_backtrackTo (grown : Grows (empty n) t) (token : Int) :
    (backtrackTo token).run t = (Call.backtrackTo token).whole t := by
  by_cases within : 0 ≤ token ∧ token ≤ t.size
  · simp [backtrackTo, Call.whole, Call.perform, Trail.backtrackTo, within, rewind,
      run_popMany grown]
  · simp [backtrackTo, Call.whole, Call.perform, Trail.backtrackTo, within]

end Work

/-- No call stops half-way. -/
theorem execute_eq_whole (grown : Grows (empty n) t) (c : Call) :
    c.execute.run t = c.whole t := by
  cases c with
  | assign v b kind => exact Work.run_assign t v b kind
  | backtrackTo token => exact Work.run_backtrackTo grown token

theorem grows_of_assignNamed {v : Int} {b : Bool} {kind : Datum}
    (h : t.assignNamed v b kind = .ok u) : Grows t u := by
  rw [assignNamed] at h
  split at h
  · split at h
    · cases h
    · exact .assign .refl h
  · cases h

/-- Cutting back to a length it had before takes a trail back on the way it has grown. -/
theorem Grows.rewind (h : Grows s t) {k : Nat} (kept : s.size ≤ k) : Grows s (t.rewind k) := by
  induction h with
  | refl =>
      rw [Trail.rewind, Nat.sub_eq_zero_of_le kept]
      exact .refl
  | @assign u w v b kind grown step ih =>
      by_cases cut : k ≤ u.size
      · rwa [rewind_of_assign step cut]
      · have whole : w.size - k = 0 := by
          rw [size_of_assign step]
          omega
        rw [Trail.rewind, whole]
        exact .assign grown step

/-- What a call does above the length of an earlier trail, that trail still grows into. -/
theorem Grows.after (base : Grows (empty n) s) (grown : Grows s t)
    (kept : s.size ≤ (c.after t).size) : Grows s (c.after t) := by
  rw [Call.after, execute_eq_whole (base.trans grown), Call.whole] at kept ⊢
  cases done : c.perform t with
  | error e => exact grown
  | ok u =>
      rw [done] at kept
      cases c with
      | assign v b kind => exact grown.trans (grows_of_assignNamed done)
      | backtrackTo token =>
          rw [Call.perform, backtrackTo] at done
          split at done
          · rename_i within
            cases done
            refine grown.rewind ?_
            rw [size_rewind (by omega)] at kept
            exact kept
          · cases done

theorem Grows.afterAll (base : Grows (empty n) s) (grown : Grows s t) (calls : List Call)
    (kept : ∀ earlier, earlier <+: calls → s.size ≤ (t.afterAll earlier).size) :
    Grows s (t.afterAll calls) := by
  induction calls generalizing t with
  | nil => exact grown
  | cons c calls ih =>
      apply ih
      · exact base.after grown (kept [c] (List.prefix_cons_inj c |>.2 List.nil_prefix))
      · intro earlier h
        exact kept (c :: earlier) ((List.prefix_cons_inj c).2 h)

theorem grows_afterAll (n : Int) (calls : List Call) :
    Grows (empty n) ((empty n).afterAll calls) :=
  Grows.afterAll .refl .refl calls fun _ _ => Nat.zero_le _

/-- There is nothing to assign on a trail over fewer than no variables. -/
theorem Grows.eq_empty (h : Grows (empty n) t) (negative : n < 0) : t = empty n := by
  induction h with
  | refl => rfl
  | assign _ step ih =>
      have bounds := bounds_of_assign step
      rw [ih] at bounds
      change 1 ≤ _ ∧ _ ≤ n at bounds
      omega

theorem Coherent.valueAt_eq {m : Nat} (co : Coherent m t) {v : Nat} (h : v ≤ m) :
    t.valueAt v = .ok (t.value v) := by
  have natural : ¬(v : Int) < 0 := by omega
  simp [valueAt, natural, co.lookup_eq h]

theorem Coherent.find?_eq {m : Nat} (co : Coherent m t) (v : Nat) :
    (t.entries.find? fun e => e.var = v).map Entry.value = t.value v := by
  cases found : t.entries.find? fun e => e.var = v with
  | none =>
      cases held : t.value v with
      | none => rfl
      | some b =>
          obtain ⟨e, he, same, _⟩ := (co.value_iff v b).1 held
          exact absurd same (by simpa using List.find?_eq_none.1 found e he)
  | some e =>
      have same : e.var = v := by simpa using List.find?_some found
      exact ((co.value_iff v e.value).2 ⟨e, List.mem_of_find?_eq_some found, same, rfl⟩).symm

/-- Whatever has been called on a trail over `n` variables, its log assigns each variable at most
once, the table and the counter say what the log says, and the next call is all or nothing. A
checkpoint that no later call cuts away leads back to the same trail. -/
theorem afterAll_consistent (n : Int) (calls : List Call) :
    ∀ t, t = (empty n).afterAll calls →
      (t.entries.map Entry.var).Nodup ∧ (∀ e ∈ t.entries, 1 ≤ e.var ∧ (e.var : Int) ≤ n) ∧
      (∀ v : Nat, 1 ≤ v → (v : Int) ≤ n →
        t.valueAt v = .ok ((t.entries.find? fun e => e.var = v).map Entry.value)) ∧
      t.level = t.entries.countP (fun e => e.kind = .decision) ∧
      (0 ≤ n → (t.isComplete = true ↔
        ∀ v : Nat, 1 ≤ v → (v : Int) ≤ n → ∃ b, t.valueAt v = .ok (some b))) ∧
      (∀ c : Call, c.execute.run t = c.whole t) ∧
      ∀ later, (∀ earlier, earlier <+: later → t.checkpoint ≤ (t.afterAll earlier).size) →
        (t.afterAll later).backtrackTo t.checkpoint = .ok t := by
  rintro t rfl
  have grown := grows_afterAll n calls
  generalize (empty n).afterAll calls = t at grown
  have whole := execute_eq_whole grown
  have restored (later : List Call)
      (kept : ∀ earlier, earlier <+: later → t.checkpoint ≤ (t.afterAll earlier).size) :
      (t.afterAll later).backtrackTo t.checkpoint = .ok t := by
    have regrown : Grows t (t.afterAll later) := grown.afterAll .refl later kept
    have within : (0 : Int) ≤ t.checkpoint ∧ (t.checkpoint : Int) ≤ (t.afterAll later).size := by
      have := regrown.size_le
      rw [checkpoint]
      omega
    rw [backtrackTo, if_pos within, Int.toNat_natCast, checkpoint,
      regrown.rewind_eq (Nat.le_refl _), rewind_size]
  -- Coherence is about a natural number of variables; below 0 the trail just stays empty.
  by_cases negative : n < 0
  · rw [grown.eq_empty negative] at whole restored ⊢
    refine ⟨List.nodup_nil, List.forall_mem_nil _, ?_, rfl, ?_, whole, restored⟩
    · intro v positive bound
      omega
    · intro natural
      omega
  · obtain ⟨m, rfl⟩ := Int.eq_ofNat_of_zero_le (Int.not_lt.1 negative)
    have co := (coherent_empty m).grows grown
    refine ⟨co.distinct, ?_, ?_, co.level, ?_, whole, restored⟩
    · intro e he
      have := co.inRange e he
      omega
    · intro v _ bound
      rw [co.valueAt_eq (by omega), co.find?_eq]
    · intro _
      rw [co.isComplete_iff]
      refine forall₂_congr fun v positive => ?_
      rw [Int.ofNat_le]
      refine forall_congr' fun bound => ?_
      rw [co.valueAt_eq bound, Option.ne_none_iff_exists']
      simp

theorem afterAll_consistent_nested :
    let t : Trail := ⟨3, #[none, some true, none, none], [⟨1, true, .decision⟩], 1⟩
    let later : List Call :=
      [.assign 2 false (.text "decision"), .assign 2 true (.text "forced"), .backtrackTo 1,
        .assign 4 true (.text "forced"), .assign 3 true (.text "guess"), .backtrackTo 2,
        .assign 3 true (.text "forced")]
    t = (empty 3).afterAll [.assign 1 true (.text "decision")] ∧
      (∀ earlier, earlier <+: later → t.checkpoint ≤ (t.afterAll earlier).size) ∧
      (t.afterAll later).size = 2 ∧ (t.afterAll later).backtrackTo t.checkpoint = .ok t := by
  intro t later
  have reached : t = (empty 3).afterAll [.assign 1 true (.text "decision")] := rfl
  have front : ∀ k ≤ 7, t.checkpoint ≤ (t.afterAll (later.take k)).size := by decide
  have kept (earlier : List Call) (h : earlier <+: later) :
      t.checkpoint ≤ (t.afterAll earlier).size := by
    rw [List.prefix_iff_eq_take.1 h]
    exact front earlier.length h.length_le
  have restored := (afterAll_consistent 3 _ t reached).2.2.2.2.2.2 later kept
  have longer : (t.afterAll later).size = 2 := by decide
  exact ⟨reached, kept, longer, restored⟩

end Clausal.Trail
