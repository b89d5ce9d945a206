import Clausal.CommandLine.SolverOptions

/-!
What an accepted command line holds. Every text that an option is set to is one that the option
takes, since options only reach the arguments through the table of the command, and their values
only through a check. So the solver can be configured, unless the heuristic was set to nothing.
-/
namespace Clausal.CommandLine

def ValueKind.Takes : ValueKind → Text → Prop
  | .anyText, _ => True
  | .oneOf choices, text => ∃ choice ∈ choices, text = Text.ofString choice
  | .integer, text => (Text.paddedInteger? text).isSome = true

/-- The command has an option of the name that takes the text. -/
def Syntax.Takes (s : Syntax) (name : String) (text : Text) : Prop :=
  ∃ o ∈ s.options, o.long = name ∧ ∃ kind, o.kind = .value kind ∧ kind.Takes text

/-- The option of a token is one of the options of the command. -/
def Token.IsKnown (s : Syntax) : Token → Prop
  | .long o _ => o ∈ s.options
  | .short o _ => o ∈ s.options
  | _ => True

/-- Every text that an option is set to is taken. -/
def Progress.IsSound (s : Syntax) (p : Progress) : Prop :=
  ∀ name text, (name, .given text) ∈ p.values → s.Takes name text

variable {s : Syntax} {p q : Progress} {o : OptionSpec} {text value : Text} {token : Token}
  {tokens : List Token} {a : Arguments}

theorem isKnown_looseToken (s : Syntax) (text : Text) : (looseToken text).IsKnown s := by
  rw [looseToken]
  split <;> trivial

theorem isKnown_of_classifyLong (h : classifyLong s text = .ok token) : token.IsKnown s := by
  rw [classifyLong] at h
  dsimp only at h
  split at h
  · rename_i o found
    cases h
    exact List.mem_of_find?_eq_some found
  · split at h
    · rename_i o found
      cases h
      exact List.mem_of_find?_eq_some found
    · split at h
      · cases h
        exact isKnown_looseToken s text
      · rename_i o unique
        cases h
        have found : o ∈ longMatches s (splitValue text).1 := unique ▸ List.mem_singleton_self o
        exact (List.mem_filter.1 found).1
      · cases h

theorem isKnown_classifyShort (s : Syntax) (text : Text) (c : CodePoint) (rest : Text) :
    (classifyShort s text c rest).IsKnown s := by
  rw [classifyShort]
  split
  · exact isKnown_looseToken s text
  · rename_i o found
    have known : o ∈ s.options := List.mem_of_find?_eq_some found
    split <;> exact known

theorem isKnown_of_classify (h : classify s text = .ok token) : token.IsKnown s := by
  rw [classify.eq_def] at h
  split at h
  · exact isKnown_of_classifyLong h
  · cases h
    exact isKnown_classifyShort s _ _ _
  · cases h
    trivial

theorem isKnown_of_tokenize {arguments : List Text} (h : tokenize s arguments = .ok tokens) :
    ∀ token ∈ tokens, token.IsKnown s := by
  induction arguments generalizing tokens with
  | nil =>
      cases h
      nofun
  | cons text rest ih =>
      rw [tokenize] at h
      split at h
      · cases h
        refine List.forall_mem_cons.2 ⟨trivial, List.forall_mem_map.2 fun _ _ => trivial⟩
      · split at h
        · cases h
        · rename_i token first
          split at h
          · cases h
          · rename_i later others
            cases h
            exact List.forall_mem_cons.2 ⟨isKnown_of_classify first, ih others⟩

theorem Progress.IsSound.setValue {kind : ValueKind} (sound : p.IsSound s) (known : o ∈ s.options)
    (takes : o.kind = .value kind) (h : p.setValue o kind value = .ok q) : q.IsSound s := by
  have added (fits : kind.Takes value)
      (same : q = { p with values := (o.long, .given value) :: p.values }) : q.IsSound s := by
    subst same
    intro name text mem
    cases mem with
    | head => exact ⟨o, known, rfl, kind, takes, fits⟩
    | tail _ mem => exact sound name text mem
  rw [Progress.setValue.eq_def] at h
  dsimp only at h
  split at h
  · cases h
    exact added trivial rfl
  · split at h
    · rename_i choices chosen
      cases h
      obtain ⟨choice, hchoice, same⟩ := List.any_eq_true.1 chosen
      exact added ⟨choice, hchoice, eq_of_beq same⟩ rfl
    · cases h
  · split at h
    · rename_i n read
      cases h
      exact added (Option.isSome_of_eq_some read) rfl
    · cases h

theorem Progress.IsSound.setNothing (sound : p.IsSound s) (o : OptionSpec) :
    (p.setNothing o).IsSound s := by
  intro name text mem
  cases mem with
  | tail _ mem => exact sound name text mem

theorem takes_of_consume (known : ∀ token ∈ tokens, token.IsKnown s) (sound : p.IsSound s)
    (h : consume s p tokens = .given a) {name : String} (mem : (name, .given text) ∈ a.values) :
    s.Takes name text := by
  -- Only the two cases that store a text have anything to check.
  fun_induction consume s p tokens with
  | case1 p =>
      rw [Progress.finish] at h
      split at h
      · cases h
      · split at h
        · cases h
          exact sound name text mem
        · cases h
  | case2 p _ rest ih => exact ih (List.forall_mem_cons.1 known).2 sound h
  | case3 p _ rest _ _ ih => exact ih (List.forall_mem_cons.1 known).2 sound h
  | case4 p _ _ _ rest ih =>
      exact ih (List.forall_mem_cons.1 (List.forall_mem_cons.1 known).2).2 sound h
  | case5 p _ _ _ rest _ ih => exact ih (List.forall_mem_cons.1 known).2 sound h
  | case6 p _ rest _ ih =>
      exact ih (List.forall_mem_cons.1 (List.forall_mem_cons.1 known).2).2 sound h
  | case7 p rest _ ih => exact ih (List.forall_mem_cons.1 known).2 sound h
  | case8 => cases h
  | case9 => cases h
  | case10 p o _ rest _ _ ih => exact ih (List.forall_mem_cons.1 known).2 sound h
  | case11 p o rest _ _ ih =>
      exact ih (List.forall_mem_cons.1 known).2 (sound.setNothing o) h
  | case12 => cases h
  | case13 p o rest kind _ takes _ q stored ih =>
      obtain ⟨first, later⟩ := List.forall_mem_cons.1 known
      exact ih later (sound.setValue first takes stored) h
  | case14 => cases h
  | case15 p o kind takes _ rest q stored ih =>
      obtain ⟨first, later⟩ := List.forall_mem_cons.1 known
      exact ih (List.forall_mem_cons.1 later).2 (sound.setValue first takes stored) h
  | case16 => cases h
  | case17 => cases h
  | case18 => cases h
  | case19 p o rest _ ih => exact ih (List.forall_mem_cons.1 known).2 sound h

/-- Every text that an accepted command line sets an option to is one that the option takes. -/
theorem takes_of_parse {arguments : List Text} (h : parse s arguments = .given a) {name : String}
    (set : a.value? name = some (.given text)) : s.Takes name text := by
  rw [parse] at h
  split at h
  · cases h
  · rename_i tokens read
    obtain ⟨before, after, split, _⟩ := List.lookup_eq_some_iff.1 set
    have mem : (name, OptionValue.given text) ∈ a.values := by
      rw [split]
      exact List.mem_append_right before List.mem_cons_self
    have start : Progress.IsSound s {} := fun _ _ none_ => absurd none_ List.not_mem_nil
    exact takes_of_consume (isKnown_of_tokenize read) start h mem

section SolverOptions

theorem toConfig_of_heuristic {o : Options} {name : String}
    (known : name ∈ Heuristic.all.map Heuristic.name) (h : o.heuristic = .text name) :
    ∃ config, o.toConfig = .ok config := by
  obtain ⟨heuristic, listed, rfl⟩ := List.mem_map.1 known
  have found : (Heuristic.ofName? heuristic.name).isSome = true :=
    List.find?_isSome.2 ⟨heuristic, listed, beq_self_eq_true _⟩
  obtain ⟨chosen, named⟩ := Option.isSome_iff_exists.1 found
  rw [Options.toConfig, h, Options.heuristic?, named]
  exact ⟨_, rfl⟩

/-- A command line with the option for the heuristic configures the solver, unless it sets that
option to nothing. -/
theorem toConfig_of_parse {arguments : List Text}
    (only : (s.options.filter fun o => o.long == heuristicOption.long) = [heuristicOption])
    (h : parse s arguments = .given a) :
    (∃ config, (solverOptions a).toConfig = .ok config) ↔
      a.value? heuristicOption.long ≠ some .nothing := by
  cases set : a.value? heuristicOption.long with
  | none =>
      have order : (solverOptions a).heuristic = .text Heuristic.order.name := by
        rw [solverOptions, set]
        rfl
      exact iff_of_true (toConfig_of_heuristic (by decide) order) nofun
  | some value =>
      cases value with
      | nothing =>
          refine iff_of_false ?_ (not_not_intro rfl)
          rintro ⟨config, accepted⟩
          rw [Options.toConfig, solverOptions, set] at accepted
          cases accepted
      | given text =>
          obtain ⟨o, known, named, kind, takes, fits⟩ := takes_of_parse h set
          have listed : o ∈ [heuristicOption] :=
            only ▸ List.mem_filter.2 ⟨known, beq_iff_eq.2 named⟩
          cases List.mem_singleton.1 listed
          cases takes
          obtain ⟨name, listed, rfl⟩ := fits
          have given : (solverOptions a).heuristic = .text name := by
            rw [solverOptions, set]
            rfl
          exact iff_of_true (toConfig_of_heuristic listed given) nofun

end SolverOptions

end Clausal.CommandLine
