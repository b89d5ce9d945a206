import Clausal.Proofs.Search.Outcome
import Mathlib.Data.Bool.Basic
import Mathlib.Data.List.Lex
import Mathlib.Order.Bounds.Basic

/-!
Deciding the variables in order, true first, goes through the valuations from the greatest one
down. A branch point that has a value left tries true for the first variable that was open, and
what is left is false, so every model that still lies ahead of it is smaller than the one the
search finds.
-/
namespace Clausal

namespace SearchState

/-- Each trail has grown from the one below it. Where a value is left it is false, while the trail
above the decision has the variable true and all smaller variables had values before. -/
def Descends (t : Trail) : List (Trail × Frame) → Prop
  | [] => True
  | (below, frame) :: rest =>
    Trail.Grows below t ∧ Descends below rest ∧
      ∀ b, frame.pending = some b → b = false ∧ t.value frame.var = some true ∧
        ∀ w, 1 ≤ w → w < frame.var → below.value w ≠ none

variable {f : Formula} {start t u : Trail} {s v : SearchState} {points : List (Trail × Frame)}

theorem Descends.grows (h : Descends t points) (grown : Trail.Grows t u) : Descends u points := by
  cases points with
  | nil => trivial
  | cons point rest =>
      obtain ⟨below, later, left⟩ := h
      refine ⟨below.trans grown, later, fun b pending => ?_⟩
      obtain ⟨denied, tried, first⟩ := left b pending
      exact ⟨denied, grown.value_eq_some tried, first⟩

theorem Descends.outer {inner outer : List (Trail × Frame)} {below : Trail} {frame : Frame}
    (h : Descends t (inner ++ (below, frame) :: outer)) :
    Trail.Grows below t ∧ Descends below outer := by
  induction inner generalizing t with
  | nil => exact ⟨h.1, h.2.1⟩
  | cons point inner ih =>
      obtain ⟨grown, later⟩ := ih h.2.1
      exact ⟨grown.trans h.1, later⟩

theorem Descends.of_mem (h : Descends t points) {point : Trail × Frame} (hp : point ∈ points) :
    Trail.Grows point.1 t ∧
      ∀ b, point.2.pending = some b → b = false ∧ t.value point.2.var = some true ∧
        ∀ w, 1 ≤ w → w < point.2.var → point.1.value w ≠ none := by
  induction points generalizing t with
  | nil => cases hp
  | cons first rest ih =>
      obtain ⟨grown, later, left⟩ := h
      rcases List.mem_cons.1 hp with rfl | hp
      · exact ⟨grown, left⟩
      · obtain ⟨grown', left'⟩ := ih later hp
        refine ⟨grown'.trans grown, fun b pending => ?_⟩
        obtain ⟨denied, tried, before⟩ := left' b pending
        exact ⟨denied, grown.value_eq_some tried, before⟩

theorem Descends.step (co : Trail.Coherent f.numVariables start) (sound : Sound f start s)
    (taken : s.step f .order false start.size = .next v) (h : Descends s.trail s.points) :
    Descends v.trail v.points := by
  cases transition_of_step co sound taken with
  | @branched p x b _ propagated incomplete _ chosen decided after _ =>
      have grown : Trail.Grows s.trail p.trail := Progress.grows_of_propagate propagated
      have coP := (co.grows sound.grown).grows grown
      obtain ⟨y, chosen', _, first⟩ := Heuristic.chooseOrdered_spec coP incomplete
      cases chosen.symm.trans chosen'
      rw [after]
      refine ⟨.assign .refl decided, h.grows grown, ?_⟩
      rintro b ⟨⟩
      refine ⟨rfl, ?_, first⟩
      rw [Trail.value_of_assign decided, Int.toNat_natCast, if_pos rfl]
  | retreated propagated retreats =>
      cases retreats with
      | flipped split _ _ decided after _ =>
          rw [split] at h
          rw [after]
          exact ⟨.assign .refl decided, h.outer.2, nofun⟩

theorem Reaches.descends (co : Trail.Coherent f.numVariables start) (sound : Sound f start s)
    (reached : Reaches f .order false start.size s v) (h : Descends s.trail s.points) :
    Descends v.trail v.points := by
  induction reached with
  | refl => exact h
  | next reached taken ih => exact ih.step co (reached.sound co sound) taken

/-- Where the model found and another one first differ, the model found is true. -/
theorem Descends.first_difference {μ : Nat → Bool} (co : Trail.Coherent f.numVariables start)
    (sound : Sound f start s) (h : Descends s.trail s.points)
    (ended : s.step f .order false start.size = .done .model v) (model : f.holds μ = true)
    (covered : Covers μ s) {x : Nat}
    (same : ∀ w, 1 ≤ w → w < x → μ w = (v.trail.value w).getD true) (true_ : μ x = true)
    (positive : 1 ≤ x) : (v.trail.value x).getD true = true := by
  cases transition_of_step co sound ended with
  | @found p propagated finished =>
      have grown : Trail.Grows s.trail p.trail := Progress.grows_of_propagate propagated
      have of_agrees {w : Trail} (agrees : w.Agrees μ) {b : Bool} (held : w.value x = some b) :
          b = true := (agrees x b held).symm.trans true_
      have trail : (s.absorb p).trail = p.trail := rfl
      rw [trail] at same ⊢
      rcases covered with agrees | ⟨⟨below, frame⟩, hp, b, pending, agrees, last⟩
      · obtain ⟨reduced, _⟩ := Progress.reduces_of_propagate (p := ⟨s.trail, s.stats⟩)
          (co.grows sound.grown) propagated
        cases held : p.trail.value x with
        | none => rfl
        | some b => exact of_agrees (reduced.agrees rfl μ agrees model) held
      · obtain ⟨grownBelow, left⟩ := h.of_mem hp
        obtain ⟨rfl, tried, before⟩ := left b pending
        have tried := grown.value_eq_some tried
        -- The model awaited is the smaller one, since it first differs at the decided variable.
        rcases Nat.lt_trichotomy x frame.var with lower | rfl | higher
        · obtain ⟨b, held⟩ := Option.ne_none_iff_exists'.1 (before x positive lower)
          rw [(grownBelow.trans grown).value_eq_some held]
          exact of_agrees agrees held
        · rw [tried]
          rfl
        · have differ := same frame.var (sound.points _ hp).2.1 higher
          rw [tried, last] at differ
          cases differ
  | retreated _ retreats => cases retreats

end SearchState

namespace Formula

variable {f : Formula}

/-- Valuations are compared at the first variable where they differ. -/
theorem map_vars_le {μ κ : Nat → Bool}
    (h : ∀ x, 1 ≤ x → (∀ w, 1 ≤ w → w < x → μ w = κ w) → μ x = true → κ x = true) :
    f.vars.map μ ≤ f.vars.map κ := by
  rw [← not_lt]
  intro less
  rcases List.lt_iff_exists.1 less with ⟨_, shorter⟩ | ⟨i, low, _, same, differ⟩
  · simp at shorter
  · simp only [vars, List.length_map, List.length_range', List.getElem_map, List.getElem_range',
      Nat.one_mul] at low same differ
    obtain ⟨denied, asserted⟩ := Bool.lt_iff.1 differ
    have := h (1 + i) (by omega) (fun w lowW highW => ?_) asserted
    · rw [this] at denied
      cases denied
    · have := same (w - 1) (by omega)
      rw [Nat.add_sub_cancel' lowW] at this
      exact this.symm

/-- The values of the variables under the models, ascending by variable. -/
def models (f : Formula) : Set (List Bool) :=
  {values | ∃ ν, f.holds ν = true ∧ f.vars.map ν = values}

theorem mem_models {ν : Nat → Bool} (model : f.holds ν = true) : f.vars.map ν ∈ f.models :=
  ⟨ν, model, rfl⟩

theorem exists_search_isGreatest {ν : Nat → Bool} (model : f.holds ν = true) :
    ∃ s, f.search .order false (.empty f.numVariables) {} =
        (.ok (some (f.completion s.trail)), s) ∧
      Trail.Coherent f.numVariables s.trail ∧ f.satisfiedBy s.trail.value = true ∧
      IsGreatest f.models (f.vars.map fun v => (s.trail.value v).getD true) := by
  have co := Trail.coherent_empty f.numVariables
  have start := SearchState.sound_start f (.empty f.numVariables) {}
  have covers {μ : Nat → Bool} (model : f.holds μ = true) {last : SearchState}
      (reached : SearchState.Reaches f .order false (Trail.empty f.numVariables).size
        (.start (.empty f.numVariables) {}) last) : SearchState.Covers μ last := by
    obtain ⟨_, _, covered, same⟩ :=
      reached.covers co start model
        (SearchState.covers_start (Trail.agrees_empty f.numVariables μ) {})
    exact same rfl ▸ covered
  obtain ⟨last, s, reached, sound, ⟨ended, found⟩ | ⟨ended, _⟩⟩ := search_ends .order false co {}
  · obtain ⟨grown, satisfied⟩ := SearchState.found_spec co sound ended
    refine ⟨s, found, co.grows grown, satisfied, ⟨_, holds_of_satisfiedBy satisfied, rfl⟩, ?_⟩
    rintro _ ⟨μ, modelμ, rfl⟩
    refine map_vars_le fun x positive same true_ => ?_
    exact (reached.descends co start trivial).first_difference co sound ended modelμ
      (covers modelμ reached) same true_ positive
  · exact absurd (covers model reached) ((SearchState.refuted_spec co sound ended).2 model)

end Formula

end Clausal
