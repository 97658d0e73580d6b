/-
# The name of a component file tells no dialect

`vue` is no extension of a dialect.  Main statement: `ofFilename?_of_endsWith`,
which asks of a name no more than its end: where a dot and an extension end the
path, the file has that extension, or it is hidden and has none.
-/
import EmitLint.Syntax.FileName

namespace EmitLint

/-! ## Extensions of a path -/

namespace Path

section

variable {path word ext : List Char}

/-- The end of a path without a `/` in it is the end of its last component. -/
theorem exists_last_component (hslash : '/' ∉ word) (h : word <:+ path) :
    ∃ front last, path.splitOn '/' = front ++ [last] ∧ word <:+ last := by
  obtain ⟨before, rfl⟩ := h
  induction before with
  | nil => exact ⟨[], word, List.splitOn_eq_singleton hslash, List.suffix_refl word⟩
  | cons c before ih =>
      obtain ⟨front, last, hsplit, hlast⟩ := ih
      rw [List.cons_append, List.splitOn_cons_eq_if_modifyHead, hsplit]
      split
      · exact ⟨[] :: front, last, rfl, hlast⟩
      · cases front with
        | nil => exact ⟨[], c :: last, rfl, hlast.trans (List.suffix_cons c last)⟩
        | cons component front => exact ⟨(c :: component) :: front, last, rfl, hlast⟩

/-- A path that ends in a dot and an extension names a file that does. -/
theorem fileName?_of_suffix {path : String} (hext : ext ≠ []) (hslash : '/' ∉ ext)
    (hdot : '.' ∉ ext) (h : '.' :: ext <:+ path.toList) :
    ∃ front, fileName? path = some (String.ofList (front ++ '.' :: ext)) := by
  have hword : '/' ∉ '.' :: ext := List.not_mem_cons_of_ne_of_not_mem (by decide) hslash
  obtain ⟨components, last, hsplit, front, rfl⟩ := exists_last_component hword h
  obtain ⟨c, hc⟩ := List.exists_mem_of_ne_nil ext hext
  have hmem : c ∈ front ++ '.' :: ext :=
    List.mem_append_right front (List.mem_cons_of_mem '.' hc)
  -- So the component is none of those that name no file.
  have hdots : ∀ w : List Char, (∀ x ∈ w, x = '.') → front ++ '.' :: ext ≠ w := by
    intro w hw heq
    rw [heq] at hmem
    exact hdot (hw c hmem ▸ hc)
  have hnil : front ++ '.' :: ext ≠ [] := hdots [] (by simp)
  have hone : front ++ '.' :: ext ≠ ['.'] := hdots ['.'] (by simp)
  refine ⟨front, ?_⟩
  rw [fileName?, hsplit, List.getLast?_filter, List.reverse_append, List.reverse_singleton,
    List.singleton_append, List.find?_cons_of_pos (by simp [hnil, hone])]
  split
  · rename_i heq
    exact absurd (Option.some.inj heq) (hdots ['.', '.'] (by simp))
  · rfl

/-- A file of this name has the extension, unless there is nothing in front of it. -/
theorem extension?_of_suffix {path : String} (hext : ext ≠ []) (hslash : '/' ∉ ext)
    (hdot : '.' ∉ ext) (h : '.' :: ext <:+ path.toList) :
    extension? path = none ∨ extension? path = some (String.ofList ext) := by
  obtain ⟨front, hname⟩ := fileName?_of_suffix hext hslash hdot h
  have hreverse : (front ++ '.' :: ext).reverse = ext.reverse ++ '.' :: front.reverse := by
    simp
  have hkept : ∀ c ∈ ext.reverse, decide (c ≠ '.') = true := by
    intro c hc
    refine decide_eq_true ?_
    rintro rfl
    exact hdot (List.mem_reverse.mp hc)
  have htake : (ext.reverse ++ '.' :: front.reverse).takeWhile (· ≠ '.') = ext.reverse := by
    rw [List.takeWhile_append_of_pos hkept, List.takeWhile_cons_of_neg (by simp),
      List.append_nil]
  simp only [extension?, hname, Option.bind_eq_bind, Option.bind_some, String.toList_ofList,
    hreverse, htake, List.drop_left, List.reverse_reverse]
  cases front.reverse with
  | nil => exact .inl rfl
  | cons c rest => exact .inr rfl

end

end Path

/-! ## Component files -/

theorem Syntax.Dialect.ofFilename?_of_endsWith {filename : String}
    (h : filename.endsWith ".vue" = true) : ofFilename? filename = none := by
  have hsuffix : '.' :: "vue".toList <:+ filename.toList := by
    simpa using String.Slice.endsWith_string_iff.mp h
  have hext := Path.extension?_of_suffix (by simp) (by simp) (by simp) hsuffix
  rw [String.ofList_toList] at hext
  rcases hext with hext | hext
  · rw [ofFilename?, hext]
    rfl
  · rw [ofFilename?, hext]
    rfl

end EmitLint
