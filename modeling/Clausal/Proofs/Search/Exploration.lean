import Clausal.Proofs.Search.Layers
import Mathlib.Data.List.Lex

/-!
The order in which a search goes through the tree of decisions. A step leads one decision deeper or,
after some decisions that stay, from the first value of a variable to the second. Both lead forward
in the lexicographic order, so the search never comes back to the decisions it started a step from.
-/
namespace Clausal

namespace Trail

/-- The entries that were guessed, in the order in which they were made. -/
def decisions (t : Trail) : List Entry := t.chronological.filter fun e => e.kind = .decision

variable {t u : Trail}

theorem decisions_of_assign {v : Int} {b : Bool} (h : t.assign v b .decision = .ok u) :
    u.decisions = t.decisions ++ [⟨v.toNat, b, .decision⟩] := by
  rw [decisions, chronological_of_assign h, List.filter_append]
  rfl

theorem Follows.decisions_eq (h : Follows t u) : u.decisions = t.decisions := by
  obtain ⟨added, entries, forced⟩ := h.forced
  have none_ : added.filter (fun e => e.kind = .decision) = [] := by
    rw [List.filter_eq_nil_iff]
    intro e he
    simp [forced e he]
  rw [decisions, entries, List.filter_append, none_, List.append_nil, decisions]

end Trail

namespace SearchState

/-- A decision in force with its value and the value that is left to try. -/
structure Choice where
  var : Nat
  value : Option Bool
  pending : Option Bool

/-- The choices at the branch points, outermost first. -/
def choices (t : Trail) (points : List (Trail × Frame)) : List Choice :=
  points.reverse.map fun (_, frame) => ⟨frame.var, t.value frame.var, frame.pending⟩

/-- From the first value of a variable to the second. -/
inductive Flips : Choice → Choice → Prop where
  | intro {v : Nat} {b : Bool} : Flips ⟨v, some (!b), some b⟩ ⟨v, some b, none⟩

theorem Flips.trans {x y z : Choice} (xy : Flips x y) (yz : Flips y z) : Flips x z := by
  cases xy
  cases yz

/-- What comes later has other variables or other values. -/
theorem map_ne_of_lex {xs ys : List Choice} (h : List.Lex Flips xs ys) :
    xs.map (fun c => (c.var, c.value)) ≠ ys.map fun c => (c.var, c.value) := by
  induction h with
  | nil => simp
  | cons _ ih =>
      intro same
      exact ih (List.cons.inj same).2
  | rel flips =>
      cases flips with
      | intro =>
          intro same
          simp at same

theorem choices_cons (t below : Trail) (frame : Frame) (points : List (Trail × Frame)) :
    choices t ((below, frame) :: points) =
      choices t points ++ [⟨frame.var, t.value frame.var, frame.pending⟩] := by
  rw [choices, List.reverse_cons, List.map_append]
  rfl

namespace Layered

variable {f : Formula} {start t u : Trail} {points : List (Trail × Frame)}

theorem value_of_mem (h : Layered f start u points) {below : Trail} {frame : Frame}
    (hp : (below, frame) ∈ points) :
    ∃ b, u.value frame.var = some b ∧ ∀ c, frame.pending = some c → c = !b := by
  obtain ⟨_, _, b, w, decided, grown, left, _⟩ := h.of_mem hp
  refine ⟨b, grown.value_eq_some ?_, left⟩
  rw [Trail.value_of_assign decided, Int.toNat_natCast, if_pos rfl]

theorem choices_eq (h : Layered f start t points) (grown : t.Grows u) :
    choices u points = choices t points := by
  refine List.map_congr_left ?_
  rintro ⟨below, frame⟩ hp
  obtain ⟨b, held, _⟩ := h.value_of_mem (List.mem_reverse.1 hp)
  dsimp only
  rw [held, grown.value_eq_some held]

theorem outer {inner points : List (Trail × Frame)} {below : Trail} {frame : Frame}
    (h : Layered f start u (inner ++ (below, frame) :: points)) :
    ∃ t, Layered f start t points ∧ t.Grows below := by
  induction inner generalizing u with
  | nil =>
      cases h with
      | decision outer follows => exact ⟨_, outer, follows.grows⟩
  | cons point inner ih =>
      cases h with
      | decision outer => exact ih outer

/-- The decisions are those of the starting trail and the choices. -/
theorem decisions_eq (h : Layered f start u points) :
    u.decisions.map (fun e => (e.var, some e.value)) =
      start.decisions.map (fun e => (e.var, some e.value)) ++
        (choices u points).map fun c => (c.var, c.value) := by
  induction h with
  | start => exact (List.append_nil _).symm
  | @decision t below u frame b points outer follows _ decided _ _ _ ih =>
      have value : u.value frame.var = some b := by
        rw [Trail.value_of_assign decided, Int.toNat_natCast, if_pos rfl]
      rw [Trail.decisions_of_assign decided, follows.decisions_eq, List.map_append, ih,
        choices_cons, outer.choices_eq (.assign follows.grows decided), value, List.map_append,
        List.append_assoc]
      rfl

end Layered

variable {f : Formula} {h : Heuristic} {pureLiterals : Bool} {start : Trail} {s u w : SearchState}

theorem lex_step (co : Trail.Coherent f.numVariables start) (sound : Sound f start s)
    (layered : Layered f start s.trail s.points)
    (taken : s.step f h pureLiterals start.size = .next u) :
    List.Lex Flips (choices s.trail s.points) (choices u.trail u.points) := by
  cases transition_of_step co sound taken with
  | @branched p v b _ propagated _ _ _ decided after _ =>
      have grown : Trail.Grows s.trail p.trail := Progress.grows_of_propagate propagated
      rw [after, choices_cons, layered.choices_eq (.assign grown decided)]
      simpa using List.Lex.append_left Flips (.nil (l := [])) (choices s.trail s.points)
  | retreated _ retreats =>
      cases retreats with
      | @flipped _ inner outer below frame b split _ pending decided after _ =>
          have hp : (below, frame) ∈ s.points := by simp [split]
          obtain ⟨_, _, _, _, decided', grown, _⟩ := layered.of_mem hp
          obtain ⟨c, held, left⟩ := layered.value_of_mem hp
          obtain rfl := left b pending
          have value : u.trail.value frame.var = some (!c) := by
            rw [Trail.value_of_assign decided, Int.toNat_natCast, if_pos rfl]
          rw [split] at layered
          obtain ⟨t, layeredT, grownT⟩ := layered.outer
          have same : choices u.trail outer = choices s.trail outer := by
            rw [layeredT.choices_eq (.assign grownT decided),
              layeredT.choices_eq (grownT.trans (.trans (.assign .refl decided') grown))]
          have before : choices s.trail s.points = choices s.trail outer ++
              ⟨frame.var, some c, some !c⟩ :: choices s.trail inner := by
            simp [choices, split, held, pending]
          have flips : Flips ⟨frame.var, some c, some !c⟩ ⟨frame.var, some !c, none⟩ := by
            simpa using Flips.intro (v := frame.var) (b := !c)
          rw [before, after, choices_cons, same, value]
          exact List.Lex.append_left Flips (.rel flips) _

theorem Reaches.lex (co : Trail.Coherent f.numVariables start) (sound : Sound f start s)
    (layered : Layered f start s.trail s.points)
    (taken : s.step f h pureLiterals start.size = .next u)
    (reached : Reaches f h pureLiterals start.size u w) :
    List.Lex Flips (choices s.trail s.points) (choices w.trail w.points) := by
  induction reached with
  | refl => exact lex_step co sound layered taken
  | next reached later ih =>
      have onward := reached.head taken
      refine List.lex_trans Flips.trans ih ?_
      exact lex_step co (onward.sound co sound) (onward.layered co sound layered) later

/-- No later step starts with the same decisions. -/
theorem Reaches.decisions_ne (co : Trail.Coherent f.numVariables start) (sound : Sound f start s)
    (layered : Layered f start s.trail s.points)
    (taken : s.step f h pureLiterals start.size = .next u)
    (reached : Reaches f h pureLiterals start.size u w) :
    w.trail.decisions ≠ s.trail.decisions := by
  intro same
  have before := layered.decisions_eq
  rw [← same, ((reached.head taken).layered co sound layered).decisions_eq] at before
  exact map_ne_of_lex (reached.lex co sound layered taken) (List.append_cancel_left before).symm

end SearchState

end Clausal
