import ComponentHost.Process.Config
import Mathlib.Data.List.Induction
import Mathlib.Data.List.Nodup

/-!
Which declarations of a process are accepted, and what is said of the others.

A declaration is accepted just if it declares a component at least, every component has a name, and
no two have the same (`ProcessConfig.validate_eq_ok_iff`). Of any other it is said what is wrong
where it goes wrong first (`ProcessConfig.validate_eq_error_iff`): all that stands before that place
is in order.
-/

set_option autoImplicit false

namespace ComponentHost.ProcessConfig

/-- Every component has a name, and no two have the same. -/
structure ProperlyNamed (cs : List ComponentConfig) : Prop where
  named : ∀ c ∈ cs, c.name ≠ ""
  nodup : (cs.map (·.name)).Nodup

structure WellNamed (config : ProcessConfig) : Prop extends
    ProperlyNamed config.components where
  nonempty : config.components ≠ []

/-- What is wrong with a declaration in the place where it goes wrong first. -/
inductive FirstOffence (config : ProcessConfig) : Error → Prop where
  | nothing (hempty : config.components = []) : FirstOffence config .emptyProcessConfig
  | nameless {before after : List ComponentConfig} {c : ComponentConfig}
      (hcomponents : config.components = before ++ c :: after) (hbefore : ProperlyNamed before)
      (hname : c.name = "") :
      FirstOffence config (.validation ("component " ++ Error.quoted c.id ++ " has an empty name"))
  | repeated {before after : List ComponentConfig} {c : ComponentConfig}
      (hcomponents : config.components = before ++ c :: after) (hbefore : ProperlyNamed before)
      (hname : c.name ≠ "") (hseen : c.name ∈ before.map (·.name)) :
      FirstOffence config (.validation ("duplicate component name " ++ Error.quoted c.name))

variable {config : ProcessConfig} {before : List ComponentConfig} {c : ComponentConfig}

/-! ### Places -/

theorem ProperlyNamed.append_singleton (hbefore : ProperlyNamed before) (hname : c.name ≠ "")
    (hnew : c.name ∉ before.map (·.name)) : ProperlyNamed (before ++ [c]) where
  named := by
    intro d hd
    rcases List.mem_append.mp hd with hd | hd
    · exact hbefore.named d hd
    · exact List.mem_singleton.mp hd ▸ hname
  nodup := by
    rw [List.map_append, List.map_singleton, List.nodup_append_comm, List.singleton_append]
    exact List.nodup_cons.mpr ⟨hnew, hbefore.nodup⟩

/-- All components are properly named, or there is a first one that is not. -/
theorem properlyNamed_or (cs : List ComponentConfig) :
    ProperlyNamed cs ∨ ∃ before c after, cs = before ++ c :: after ∧ ProperlyNamed before ∧
      (c.name = "" ∨ c.name ≠ "" ∧ c.name ∈ before.map (·.name)) := by
  induction cs using List.reverseRecOn with
  | nil => exact .inl ⟨by simp, by simp⟩
  | append_singleton cs c ih =>
    rcases ih with hcs | ⟨before, d, after, rfl, hbefore, hd⟩
    · by_cases hname : c.name = ""
      · exact .inr ⟨cs, c, [], rfl, hcs, .inl hname⟩
      by_cases hseen : c.name ∈ cs.map (·.name)
      · exact .inr ⟨cs, c, [], rfl, hcs, .inr ⟨hname, hseen⟩⟩
      · exact .inl (hcs.append_singleton hname hseen)
    · exact .inr ⟨before, d, after ++ [c], by simp, hbefore, hd⟩

/-- What is properly named is passed over, and its names are remembered. -/
theorem checkNames_append {seen : List String} (rest : List ComponentConfig)
    (hbefore : ProperlyNamed before) (hnew : ∀ name ∈ before.map (·.name), name ∉ seen) :
    checkNames seen (before ++ rest) =
      checkNames ((before.map (·.name)).reverse ++ seen) rest := by
  induction before generalizing seen with
  | nil => rfl
  | cons c before ih =>
    obtain ⟨hc, hnodup⟩ := List.nodup_cons.mp hbefore.nodup
    have htail : ProperlyNamed before :=
      ⟨fun d hd ↦ hbefore.named d (List.mem_cons_of_mem _ hd), hnodup⟩
    have hnew' : ∀ name ∈ before.map (·.name), name ∉ c.name :: seen := by
      intro name hname hmem
      rcases List.mem_cons.mp hmem with rfl | hmem
      · exact hc hname
      · exact hnew name (List.mem_cons_of_mem _ hname) hmem
    rw [List.cons_append, checkNames, if_neg (hbefore.named c List.mem_cons_self),
      if_neg (hnew c.name List.mem_cons_self), ih htail hnew']
    simp

theorem checkNames_of_properlyNamed (rest : List ComponentConfig) (hbefore : ProperlyNamed before) :
    checkNames [] (before ++ rest) = checkNames (before.map (·.name)).reverse rest := by
  have hnew : ∀ name ∈ before.map (·.name), name ∉ ([] : List String) := by simp
  rw [checkNames_append rest hbefore hnew, List.append_nil]

/-! ### Declarations -/

theorem validate_of_ne_nil (hnonempty : config.components ≠ []) :
    config.validate = checkNames [] config.components := by
  unfold validate
  split
  · rename_i hempty
    exact absurd hempty hnonempty
  · rfl

theorem WellNamed.validate (h : config.WellNamed) : config.validate = .ok () := by
  have hall := checkNames_of_properlyNamed [] h.toProperlyNamed
  rw [List.append_nil] at hall
  rw [validate_of_ne_nil h.nonempty, hall, checkNames]

theorem FirstOffence.validate {e : Error} (h : config.FirstOffence e) :
    config.validate = .error e := by
  cases h with
  | nothing hempty => rw [ProcessConfig.validate, hempty]
  | nameless hcomponents hbefore hname =>
    rw [validate_of_ne_nil (by simp [hcomponents]), hcomponents,
      checkNames_of_properlyNamed _ hbefore, checkNames, if_pos hname]
  | repeated hcomponents hbefore hname hseen =>
    rw [validate_of_ne_nil (by simp [hcomponents]), hcomponents,
      checkNames_of_properlyNamed _ hbefore, checkNames, if_neg hname,
      if_pos (List.mem_reverse.mpr hseen)]

/-- There is nothing wrong with a declaration, or a place where it goes wrong first. -/
theorem wellNamed_or (config : ProcessConfig) :
    config.WellNamed ∨ ∃ e, config.FirstOffence e := by
  by_cases hempty : config.components = []
  · exact .inr ⟨_, .nothing hempty⟩
  rcases properlyNamed_or config.components with
    hnamed | ⟨before, c, after, hcomponents, hbefore, hname | ⟨hname, hseen⟩⟩
  · exact .inl ⟨hnamed, hempty⟩
  · exact .inr ⟨_, .nameless hcomponents hbefore hname⟩
  · exact .inr ⟨_, .repeated hcomponents hbefore hname hseen⟩

theorem validate_eq_ok_iff : config.validate = .ok () ↔ config.WellNamed := by
  refine ⟨fun hok ↦ ?_, WellNamed.validate⟩
  rcases config.wellNamed_or with hwell | ⟨e, hoffence⟩
  · exact hwell
  · cases hok.symm.trans hoffence.validate

theorem validate_eq_error_iff {e : Error} : config.validate = .error e ↔ config.FirstOffence e := by
  refine ⟨fun herror ↦ ?_, FirstOffence.validate⟩
  rcases config.wellNamed_or with hwell | ⟨e', hoffence⟩
  · cases herror.symm.trans hwell.validate
  · cases herror.symm.trans hoffence.validate
    exact hoffence

end ComponentHost.ProcessConfig
