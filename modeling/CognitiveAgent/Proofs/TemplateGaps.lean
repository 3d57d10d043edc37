import CognitiveAgent.Text.Template
import Mathlib.Logic.ExistsUnique

/-!
Templates as pieces of text with gaps between them. Main statement: every template is cut at its
gaps in one way only, and rendering it puts the arguments between the pieces, each as it is and in
its own gap, however the pieces and the arguments look at their ends.
-/

set_option autoImplicit false

namespace CognitiveAgent.Text

def HasGap (text : String) : Prop := ['%', 's'] <:+: text.toList

instance (text : String) : Decidable (HasGap text) :=
  inferInstanceAs (Decidable (['%', 's'] <:+: text.toList))

/-- The pieces of a template between its gaps. -/
structure Divides (pieces : List String) (template : String) : Prop where
  nonempty : pieces ≠ []
  gapless : ∀ piece ∈ pieces, ¬ HasGap piece
  joined : "%s".intercalate pieces = template

/-- What comes to stand in a gap: the argument of the same number, or the gap itself beyond the last
argument. -/
def gapText (arguments : List String) (number : Nat) : String := arguments.getD number "%s"

def interleave (arguments : List String) : List String → String
  | [] => ""
  | first :: later =>
    first ++ String.join (later.mapIdx fun number piece => gapText arguments number ++ piece)

/-! ### Cutting at the gaps -/

def cut : List Char → List (List Char)
  | [] => [[]]
  | '%' :: 's' :: rest => [] :: cut rest
  | c :: rest => (cut rest).modifyHead (c :: ·)

private theorem cut_cons {c : Char} {rest : List Char}
    (apart : ∀ later, c = '%' → rest ≠ 's' :: later) :
    cut (c :: rest) = (cut rest).modifyHead (c :: ·) := by
  rw [cut]
  exact apart

private theorem exists_cut (text : List Char) : ∃ first later, cut text = first :: later := by
  induction text using cut.induct with
  | case1 => exact ⟨[], [], rfl⟩
  | case2 rest _ => exact ⟨[], cut rest, rfl⟩
  | case3 c rest apart ih =>
      obtain ⟨first, later, same⟩ := ih
      exact ⟨c :: first, later, by rw [cut_cons apart, same, List.modifyHead_cons]⟩

private theorem gapless_cons_iff {c : Char} {rest : List Char} :
    ¬ ['%', 's'] <:+: c :: rest ↔
      (∀ later, c = '%' → rest ≠ 's' :: later) ∧ ¬ ['%', 's'] <:+: rest := by
  rw [List.infix_cons_iff, List.cons_prefix_cons, not_or, and_congr_left_iff]
  intro _
  constructor
  · rintro apart later rfl rfl
    exact apart ⟨rfl, later, rfl⟩
  · rintro apart ⟨rfl, later, rfl⟩
    exact apart later rfl rfl

private theorem intercalate_cut (text : List Char) : ['%', 's'].intercalate (cut text) = text := by
  induction text using cut.induct with
  | case1 => rfl
  | case2 rest ih =>
      obtain ⟨first, later, same⟩ := exists_cut rest
      rw [same] at ih
      rw [cut, same, List.intercalate_cons_cons, ih]
      rfl
  | case3 c rest apart ih =>
      obtain ⟨first, later, same⟩ := exists_cut rest
      rw [same] at ih
      rw [cut_cons apart, same, List.modifyHead_cons, ← ih]
      cases later with
      | nil => simp
      | cons second later => simp [List.intercalate_cons_cons]

/-- The first piece begins as the text does. -/
theorem starts_of_cut {text tail : List Char} {later : List (List Char)}
    (same : cut text = ('s' :: tail) :: later) : ∃ rest, text = 's' :: rest := by
  induction text using cut.induct with
  | case1 => cases same
  | case2 rest _ => cases same
  | case3 c rest apart _ =>
      obtain ⟨first, others, before⟩ := exists_cut rest
      rw [cut_cons apart, before, List.modifyHead_cons] at same
      cases same
      exact ⟨rest, rfl⟩

private theorem gapless_of_mem_cut {text piece : List Char} (member : piece ∈ cut text) :
    ¬ ['%', 's'] <:+: piece := by
  induction text using cut.induct generalizing piece with
  | case1 =>
      rw [List.mem_singleton.mp member]
      decide
  | case2 rest ih =>
      rcases List.mem_cons.mp member with rfl | later
      · decide
      · exact ih later
  | case3 c rest apart ih =>
      obtain ⟨first, others, same⟩ := exists_cut rest
      rw [same] at ih
      rw [cut_cons apart, same, List.modifyHead_cons] at member
      rcases List.mem_cons.mp member with rfl | later
      · refine gapless_cons_iff.mpr ⟨?_, ih List.mem_cons_self⟩
        -- A piece that begins with `s` comes from a text that does.
        rintro tail percent rfl
        obtain ⟨after, begins⟩ := starts_of_cut same
        exact apart after percent begins
      · exact ih (List.mem_cons_of_mem first later)

/-- A piece without a gap stays whole in front of a text that does not complete one with it. -/
theorem cut_append {piece tail : List Char} (gapless : ¬ ['%', 's'] <:+: piece)
    (apart : ∀ later, tail ≠ 's' :: later) :
    cut (piece ++ tail) = (cut tail).modifyHead (piece ++ ·) := by
  obtain ⟨first, later, same⟩ := exists_cut tail
  induction piece with
  | nil => simp [same]
  | cons c piece ih =>
      obtain ⟨separate, without⟩ := gapless_cons_iff.mp gapless
      have next : ∀ later, c = '%' → piece ++ tail ≠ 's' :: later := by
        intro later percent begins
        -- What follows the percent sign is the piece's own, or the first of the tail.
        cases piece with
        | nil => exact apart later begins
        | cons d piece =>
            cases begins
            exact separate piece percent rfl
      rw [List.cons_append, cut_cons next, ih without, same]
      rfl

private theorem cut_intercalate {pieces : List (List Char)} (nonempty : pieces ≠ [])
    (gapless : ∀ piece ∈ pieces, ¬ ['%', 's'] <:+: piece) :
    cut (['%', 's'].intercalate pieces) = pieces := by
  induction pieces with
  | nil => exact absurd rfl nonempty
  | cons first later ih =>
      obtain ⟨without, others⟩ := List.forall_mem_cons.mp gapless
      cases later with
      | nil =>
          have alone : cut (first ++ []) = (cut []).modifyHead (first ++ ·) :=
            cut_append without (by simp)
          simpa [cut] using alone
      | cons second later =>
          rw [List.intercalate_cons_cons, List.append_assoc, cut_append without (by simp)]
          rw [List.cons_append, List.cons_append, List.nil_append, cut,
            ih (List.cons_ne_nil second later) others, List.modifyHead_cons, List.append_nil]

/-- There is one way only to cut a template. -/
theorem divides_iff {pieces : List String} {template : String} :
    Divides pieces template ↔ pieces = (cut template.toList).map String.ofList := by
  constructor
  · rintro ⟨nonempty, gapless, rfl⟩
    have texts : cut (['%', 's'].intercalate (pieces.map String.toList)) =
        pieces.map String.toList := by
      apply cut_intercalate
      · simpa using nonempty
      · intro text member
        obtain ⟨piece, inside, rfl⟩ := List.mem_map.mp member
        exact gapless piece inside
    have back : (pieces.map String.toList).map String.ofList = pieces := by simp
    rw [String.toList_intercalate]
    exact back.symm.trans (congrArg (List.map String.ofList) texts.symm)
  · rintro rfl
    constructor
    · obtain ⟨first, later, same⟩ := exists_cut template.toList
      simp [same]
    · intro piece member
      obtain ⟨text, inside, rfl⟩ := List.mem_map.mp member
      rw [HasGap, String.toList_ofList]
      exact gapless_of_mem_cut inside
    · have back : ((cut template.toList).map String.ofList).map String.toList =
          cut template.toList := by simp
      apply String.toList_inj.mp
      rw [String.toList_intercalate, back]
      exact intercalate_cut template.toList

/-! ### Filling the gaps -/

section Filling

variable (arguments : List String)

private theorem interleave_append (text first : String) (later : List String) :
    interleave arguments ((text ++ first) :: later) =
      text ++ interleave arguments (first :: later) :=
  String.append_assoc

/-- Past the first gap the arguments are one fewer. -/
theorem interleave_gap {pieces : List String} (nonempty : pieces ≠ []) :
    interleave arguments ("" :: pieces) =
      gapText arguments 0 ++ interleave arguments.tail pieces := by
  cases pieces with
  | nil => exact absurd rfl nonempty
  | cons first later =>
      have next (number : Nat) :
          gapText arguments (number + 1) = gapText arguments.tail number := by
        simp [gapText]
      simp only [interleave, List.mapIdx_cons, String.join_cons, next, String.empty_append,
        String.append_assoc]

end Filling

private theorem fill_cons {c : Char} {rest : List Char}
    (apart : ∀ later, c = '%' → rest ≠ 's' :: later)
    (arguments : List (List Char)) : fill (c :: rest) arguments = c :: fill rest arguments := by
  rw [fill]
  · exact fun later _ => apart later
  · exact fun later _ _ _ => apart later

/-- Filling the gaps is putting the arguments between the pieces. -/
theorem ofList_fill (text : List Char) (arguments : List String) :
    String.ofList (fill text (arguments.map String.toList)) =
      interleave arguments ((cut text).map String.ofList) := by
  induction text using cut.induct generalizing arguments with
  | case1 => rfl
  | case2 rest ih =>
      obtain ⟨first, later, same⟩ := exists_cut rest
      have nonempty : (cut rest).map String.ofList ≠ [] := by simp [same]
      have gap : interleave arguments ((cut ('%' :: 's' :: rest)).map String.ofList) =
          gapText arguments 0 ++ interleave arguments.tail ((cut rest).map String.ofList) :=
        interleave_gap arguments nonempty
      rw [gap, ← ih]
      cases arguments with
      | nil =>
          have bare : fill ('%' :: 's' :: rest) [] = ['%', 's'] ++ fill rest [] := by
            rw [fill]
            rfl
          rw [List.map_nil, bare, String.ofList_append]
          rfl
      | cons argument arguments =>
          rw [List.map_cons, fill, String.ofList_append, String.ofList_toList]
          rfl
  | case3 c rest apart ih =>
      obtain ⟨first, later, same⟩ := exists_cut rest
      have longer : interleave arguments ((cut (c :: rest)).map String.ofList) =
          String.ofList [c] ++ interleave arguments ((cut rest).map String.ofList) := by
        rw [cut_cons apart, same, List.modifyHead_cons, List.map_cons, List.map_cons,
          ← interleave_append, ← String.ofList_append, List.singleton_append]
      rw [longer, ← ih, fill_cons apart, ← String.ofList_append, List.singleton_append]

/-- Rendering a template puts the arguments between its pieces, and every template has pieces in
exactly one way. -/
theorem render_interleaves :
    (∀ (pieces arguments : List String) (template : String), Divides pieces template →
      render template arguments = interleave arguments pieces) ∧
    ∀ template : String, ∃! pieces : List String, Divides pieces template := by
  constructor
  · intro pieces arguments template divides
    rw [divides_iff.mp divides]
    exact ofList_fill template.toList arguments
  · intro template
    exact ⟨_, divides_iff.mpr rfl, fun pieces divides => divides_iff.mp divides⟩

/-- A percent sign before a gap, an `s` after one, an argument that is a gap, and a gap too many. -/
theorem render_interleaves_of_percent :
    Divides ["%", " of ", "s%", "s"] "%%s of %ss%%ss" ∧
    render "%%s of %ss%%ss" ["%s", "s"] = "%%s of ss%%ss" := by
  have divides : Divides ["%", " of ", "s%", "s"] "%%s of %ss%%ss" :=
    ⟨by decide, by decide, by decide⟩
  refine ⟨divides, ?_⟩
  rw [render_interleaves.1 _ _ _ divides]
  decide

end CognitiveAgent.Text
