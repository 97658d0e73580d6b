/-
# Blanks around the `=` of an attribute

Blanks may stand on both sides of the `=` between the name and the value of an attribute.
The reader of attributes looks for the `=` right behind the name, and for the value right
behind the `=`:

    blank in front of the `=`    the name is read without a value, and reading ends there
    blank only behind it         the value is empty, and its text is read as attributes

`understood` is what becomes of a list of attributes in this way (`entries_flatMap`).
Main statement: `spacing_immaterial_iff`.  A tag can be written without the blanks exactly
if the flag and the language of what is understood are those of what is meant.
-/
import EmitLint.Proofs.Sfc.Entries
import EmitLint.Proofs.Sfc.Tiling

namespace EmitLint.Sfc.Written

open Text (byteLength encode)

/-- An attribute, with blanks in front of its `=` and behind it. -/
structure SpacedAttribute extends Attribute where
  front : List Char
  back : List Char
  front_blank : Only spaces front := by decide
  back_blank : Only spaces back := by decide

namespace SpacedAttribute

/-- The attribute behind its name. -/
def spacedValue (a : SpacedAttribute) : List Char :=
  match a.value with
  | none => []
  | some v => a.front ++ '=' :: (a.back ++ v.written)

def text (a : SpacedAttribute) : List Char := a.gap ++ (a.name ++ a.spacedValue)

/-- The blanks on both sides of the `=`, if there is one. -/
def blanks (a : SpacedAttribute) : List Char :=
  match a.value with
  | none => []
  | some _ => a.front ++ a.back

/-- The attribute without these blanks. -/
def tight (a : SpacedAttribute) : SpacedAttribute :=
  { a with front := [], back := [], front_blank := by decide, back_blank := by decide }

/-- What the attribute is meant to say. -/
def meant (a : SpacedAttribute) : Entry := ⟨a.name, a.value.map (·.text)⟩

end SpacedAttribute

/-- What is read where these attributes stand. -/
def understood : List SpacedAttribute → List Entry
  | [] => []
  | a :: as =>
      match a.value with
      | none => ⟨a.name, none⟩ :: understood as
      | some v =>
          if a.front = [] then
            if a.back = [] then ⟨a.name, some v.text⟩ :: understood as
            else ⟨a.name, some []⟩ :: entries (v.written ++ as.flatMap SpacedAttribute.text)
          else [⟨a.name, none⟩]

/-- The opening tag of a script, with blanks around the `=` of its attributes. -/
structure SpacedTag where
  name : List Char
  attributes : List SpacedAttribute
  spells : Spells "script" name := by decide

namespace SpacedTag

def attributeText (t : SpacedTag) : List Char := t.attributes.flatMap SpacedAttribute.text

/-- The tag up to its `>`. -/
def front (t : SpacedTag) : List Char := tagFront t.name t.attributeText

/-- All blanks around a `=`. -/
def blanks (t : SpacedTag) : List Char := t.attributes.flatMap SpacedAttribute.blanks

/-- The tag without these blanks. -/
def tight (t : SpacedTag) : SpacedTag :=
  ⟨t.name, t.attributes.map SpacedAttribute.tight, t.spells⟩

/-- All values of the tag are in quotes. -/
def Quoted (t : SpacedTag) : Prop := ∀ a ∈ t.attributes, a.value.all Value.quoted = true

instance (t : SpacedTag) : Decidable t.Quoted :=
  List.decidableBAll (fun a : SpacedAttribute => a.value.all Value.quoted = true) t.attributes

/-- A file with a script that has this tag. -/
def file (t : SpacedTag) (before content after : List Char) : List Char :=
  before ++ elementText t.name t.attributeText content "script".toList ++ after

/-- The block of that script. -/
def block (t : SpacedTag) (before content : List Char) : ScriptBlock :=
  ⟨String.ofList content, byteLength before + byteLength t.front + 1,
    Entry.setup (understood t.attributes), Entry.lang (understood t.attributes)⟩

end SpacedTag

/-! ## What is read -/

theorem isBlank_of_only {text : List Char} (h : Only spaces text) :
    ∀ b ∈ encode text, isBlank b = true := by
  intro b hb
  have hascii : Text.IsAscii text := fun c hc => (by decide : Text.IsAscii spaces) c (h c hc)
  rw [Text.encode_of_ascii hascii] at hb
  obtain ⟨c, hc, rfl⟩ := List.mem_map.mp hb
  exact isBlank_iff.mpr (List.mem_map_of_mem (h c hc))

theorem isBlank_head? {text rest : List Char} (hne : text ≠ []) (h : Only spaces text) :
    ∀ b ∈ (encode (text ++ rest)).head?, isBlank b = true := by
  intro b hb
  rw [Text.encode_append] at hb
  exact isBlank_of_only h b (mem_of_mem_head? (Text.encode_ne_nil hne) hb)

theorem isGap_of_only {text : List Char} (h : Only spaces text) :
    ∀ b ∈ encode text, isGap b = true := by
  intro b hb
  rw [isGap, isBlank_of_only h b hb, Bool.true_or]

theorem isBlank_head?_flatMap (as : List SpacedAttribute) :
    ∀ b ∈ (encode (as.flatMap SpacedAttribute.text)).head?, isBlank b = true :=
  fun b hb => isBlank_of_mem_gaps b
    (mem_gaps_of_head? (fun a : SpacedAttribute => ⟨a.toAttribute, _, rfl⟩) b hb)

/-- What is understood is what is read. -/
theorem entries_flatMap (as : List SpacedAttribute) :
    entries (as.flatMap SpacedAttribute.text) = understood as := by
  induction as with
  | nil => exact entries_nil
  | cons a as ih =>
      have hrest := isBlank_head?_flatMap as
      rw [List.flatMap_cons, SpacedAttribute.text, SpacedAttribute.spacedValue, understood]
      cases hvalue : a.value with
      | none =>
          rw [List.append_assoc, List.append_assoc, List.nil_append, entries_name _ hrest, ih]
      | some v =>
          dsimp only
          split
          · rename_i hfront
            split
            · -- No blanks: the attribute is read as it was written.
              rename_i hback
              have hread := entries_written a.toAttribute hrest
              rw [Attribute.written, Attribute.writtenValue, hvalue, Option.map_some, ih] at hread
              simpa [hfront, hback] using hread
            · -- The blanks behind the `=` end the value, and then separate its text from it.
              rename_i hback
              have hne : a.back ++ (v.written ++ as.flatMap SpacedAttribute.text) ≠ [] := by
                simp [hback]
              have hread := entries_blank a.toAttribute hne (isBlank_head? hback a.back_blank)
              rw [entries_gap (isGap_of_only a.back_blank)] at hread
              simpa [hfront] using hread
          · -- Behind the blanks no name can begin, as there stands the `=`.
            rename_i hfront
            have hread : entries (a.gap ++ (a.name ++ (a.front ++ '=' :: (a.back ++ (v.written ++
                as.flatMap SpacedAttribute.text))))) = _ :=
              entries_name a.toAttribute (isBlank_head? hfront a.front_blank)
            rw [entries_gap (isGap_of_only a.front_blank), entries_equals] at hread
            simpa using hread

/-- Without the blanks it is what is meant. -/
theorem understood_tight (as : List SpacedAttribute) :
    understood (as.map SpacedAttribute.tight) = as.map SpacedAttribute.meant := by
  induction as with
  | nil => rfl
  | cons a as ih =>
      rw [List.map_cons, List.map_cons, understood, ih, SpacedAttribute.meant]
      show (match a.value with | none => _ | some v => _) = _
      cases a.value <;> rfl

/-! ## The script in its file -/

section
variable {t : SpacedTag} {before content after : List Char}

theorem tagText_spaced (a : SpacedAttribute) : TagText (encode a.text) := by
  have hblank : ∀ {text : List Char}, Only spaces text → TagText (encode text) := by
    intro text h
    have hplain : Without ['\x22', '\x27', '>'] spaces := by decide
    exact tagText_of_without fun c hc => hplain c (h c hc)
  refine tagText_named a.toAttribute ?_
  unfold SpacedAttribute.spacedValue
  split
  · exact .nil
  · rw [Text.encode_append, Text.encode_cons_of_ascii (by decide), Text.encode_append]
    refine tagText_append (hblank a.front_blank) (.byte (by decide) (by decide) (by decide) ?_)
    exact tagText_append (hblank a.back_blank) (tagText_value _)

theorem isTag_spaced (t : SpacedTag) : IsTag t.name t.attributeText :=
  .of_flatMap (f := SpacedAttribute.text) t.spells (fun a => ⟨a.toAttribute, _, rfl⟩)
    tagText_spaced t.attributes

theorem getLast?_spaced (h : t.Quoted) : t.attributeText.getLast? ≠ some '/' := by
  refine getLast?_flatMap_ne (fun a => ?_) fun a ha => getLast?_named a.toAttribute ?_
  · simp [SpacedAttribute.text, a.name_ne_nil]
  · have hquoted := h a ha
    rw [SpacedAttribute.spacedValue]
    cases hvalue : a.value with
    | none => exact .inl rfl
    | some v =>
        rw [hvalue] at hquoted
        exact .inr ⟨a.front ++ '=' :: a.back, v, hquoted, by simp⟩

theorem quoted_tight (h : t.Quoted) : t.tight.Quoted :=
  List.forall_mem_map.mpr h

theorem byteLength_text (a : SpacedAttribute) :
    byteLength a.text = byteLength a.tight.text + byteLength a.blanks := by
  have htight : a.tight.spacedValue =
      (match a.value with | none => [] | some v => '=' :: v.written) := rfl
  rw [SpacedAttribute.text, SpacedAttribute.text, SpacedAttribute.spacedValue, htight,
    SpacedAttribute.blanks]
  show byteLength (a.gap ++ (a.name ++ _)) = byteLength (a.gap ++ (a.name ++ _)) + _
  cases a.value with
  | none => simp
  | some v =>
      simp only [Text.byteLength_append, Text.byteLength_cons]
      omega

theorem byteLength_attributeText (t : SpacedTag) :
    byteLength t.attributeText = byteLength t.tight.attributeText + byteLength t.blanks := by
  rw [SpacedTag.attributeText, SpacedTag.attributeText, SpacedTag.blanks, SpacedTag.tight]
  dsimp only
  induction t.attributes with
  | nil => rfl
  | cons a as ih =>
      simp only [List.map_cons, List.flatMap_cons, Text.byteLength_append, ih, byteLength_text a]
      omega

/-- The script is a block, if there is none in front of it. -/
theorem scan_file (hquoted : t.Quoted) (hbefore : '<' ∉ before)
    (hclosed : Text.occursIn "</script>".toList (content.map Char.toLower) = false)
    (after : List Char) :
    ∃ r, ScriptBlock.ofRange (String.ofList (t.file before content after)) r =
        t.block before content ∧
      scan 0 (encode (t.file before content after)) [] =
        scan (byteLength (before ++ elementText t.name t.attributeText content "script".toList))
          (encode after) [r] := by
  obtain ⟨r, hr, hscan⟩ := scan_of_elementText (isTag_spaced t) (getLast?_spaced hquoted) hclosed
    (by decide) [] (encode after) (String.toList_ofList (l := t.file before content after))
  refine ⟨r, ?_, ?_⟩
  · rw [hr, SpacedTag.block, hasSetup_eq, language_eq, SpacedTag.attributeText, entries_flatMap,
      SpacedTag.front, SpacedTag.attributeText]
  · rw [SpacedTag.file, Text.encode_append, Text.encode_append, List.append_assoc,
      scan_text hbefore, Nat.zero_add, hscan]
    simp

theorem extractScriptBlocks_file (hquoted : t.Quoted) (hbefore : '<' ∉ before)
    (hclosed : Text.occursIn "</script>".toList (content.map Char.toLower) = false)
    (hafter : '<' ∉ after) :
    extractScriptBlocks (String.ofList (t.file before content after)) =
      .ok [t.block before content] := by
  obtain ⟨r, hr, hscan⟩ := scan_file hquoted hbefore hclosed after
  rw [extractScriptBlocks, Text.bytes_ofList, hscan, ← List.append_nil (encode after),
    scan_text hafter, scan_nil, ← hr]
  rfl

theorem block_tight (t : SpacedTag) (before content : List Char) :
    t.block before content = (t.tight.block before content).shift (byteLength t.blanks) ↔
      Entry.setup (understood t.attributes) =
          Entry.setup (t.attributes.map SpacedAttribute.meant) ∧
        Entry.lang (understood t.attributes) =
          Entry.lang (t.attributes.map SpacedAttribute.meant) := by
  have hoffset : byteLength before + byteLength t.front + 1 =
      byteLength before + byteLength t.tight.front + 1 + byteLength t.blanks := by
    rw [SpacedTag.front, SpacedTag.front, byteLength_front t.spells,
      byteLength_front t.tight.spells, byteLength_attributeText t]
    omega
  rw [SpacedTag.block, SpacedTag.block, ScriptBlock.shift, ScriptBlock.mk.injEq, hoffset]
  simp only [SpacedTag.tight, understood_tight, true_and]

/-- With the same block a tag can be written either way, whatever stands behind the script. -/
theorem extractScriptBlocks_tight (hquoted : t.Quoted) (hbefore : '<' ∉ before)
    (hclosed : Text.occursIn "</script>".toList (content.map Char.toLower) = false)
    (hblock : t.block before content =
      (t.tight.block before content).shift (byteLength t.blanks)) (after : List Char) :
    extractScriptBlocks (String.ofList (t.file before content after)) =
      moved ScriptBlock.shift (byteLength t.blanks)
        (extractScriptBlocks (String.ofList (t.tight.file before content after))) := by
  obtain ⟨r, hr, hscan⟩ := scan_file hquoted hbefore hclosed after
  obtain ⟨r', hr', hscan'⟩ := scan_file (quoted_tight hquoted) hbefore hclosed after
  have hlength : byteLength (before ++ elementText t.name t.attributeText content "script".toList) =
      byteLength (before ++
        elementText t.tight.name t.tight.attributeText content "script".toList) +
          byteLength t.blanks := by
    simp only [elementText, tagFront, Text.byteLength_append, byteLength_attributeText t]
    show _ + (byteLength ('<' :: t.name) + _ + _) = _ + (byteLength ('<' :: t.name) + _ + _) + _
    omega
  refine extractScriptBlocks_moved [r'] [r]
    (String.toList_ofList (l := t.tight.file before content after))
    (String.toList_ofList (l := t.file before content after)) hlength ?_ ?_ ?_
  · rw [List.map_singleton, List.map_singleton, List.map_singleton, hr, hr', hblock]
  · rw [Text.bytes_ofList, hscan']
  · rw [Text.bytes_ofList, hscan]

/-- A script is found with the flag and the language of what is understood of its tag.  So
blanks around the `=` of its attributes make no difference exactly if what is understood
has the flag and the language of what is meant; there is then no difference whatever
stands behind the script, but for the place. -/
theorem spacing_immaterial_iff (hquoted : t.Quoted) (hbefore : '<' ∉ before)
    (hclosed : Text.occursIn "</script>".toList (content.map Char.toLower) = false) :
    (∀ after, '<' ∉ after →
      extractScriptBlocks (String.ofList (t.file before content after)) =
        .ok [t.block before content]) ∧
    ((∀ after, extractScriptBlocks (String.ofList (t.file before content after)) =
        moved ScriptBlock.shift (byteLength t.blanks)
          (extractScriptBlocks (String.ofList (t.tight.file before content after)))) ↔
      Entry.setup (understood t.attributes) =
          Entry.setup (t.attributes.map SpacedAttribute.meant) ∧
        Entry.lang (understood t.attributes) =
          Entry.lang (t.attributes.map SpacedAttribute.meant)) := by
  refine ⟨fun after hafter => extractScriptBlocks_file hquoted hbefore hclosed hafter, ?_⟩
  rw [← block_tight t before content]
  constructor
  · intro hsame
    have hnone : '<' ∉ ([] : List Char) := List.not_mem_nil
    have hfirst := hsame []
    rw [extractScriptBlocks_file hquoted hbefore hclosed hnone,
      extractScriptBlocks_file (quoted_tight hquoted) hbefore hclosed hnone] at hfirst
    exact List.singleton_inj.mp (Except.ok.inj hfirst)
  · exact extractScriptBlocks_tight hquoted hbefore hclosed

end

/-! ## Examples -/

theorem entries_title : entries "\"no setup yet\"".toList =
    [⟨"\"no".toList, none⟩, ⟨"setup".toList, none⟩, ⟨"yet\"".toList, none⟩] := by
  have hfirst : nextName? (encode "\"no setup yet\"".toList) 0 = some ⟨0, 3⟩ := by decide
  have hsecond : nextName? (encode "\"no setup yet\"".toList) 3 = some ⟨4, 9⟩ := by decide
  have hthird : nextName? (encode "\"no setup yet\"".toList) 9 = some ⟨10, 14⟩ := by decide
  have hend : nextName? (encode "\"no setup yet\"".toList) 14 = none := by decide
  rw [entries, entriesFrom, attributesFrom_of_some hfirst, if_neg (by decide),
    attributesFrom_of_some hsecond, if_neg (by decide), attributesFrom_of_some hthird,
    if_neg (by decide), attributesFrom_of_none hend]
  decide

/-- An attribute behind a space. -/
def SpacedAttribute.plain (name : List Char) (value : Option Value) (front back : List Char)
    (h : (name ≠ [] ∧ Without (spaces ++ ['\x22', '\x27', '=', '/', '<', '>']) name) ∧
      Only spaces front ∧ Only spaces back := by decide) : SpacedAttribute where
  gap := [' ']
  name := name
  value := value
  name_ne_nil := h.1.1
  name_plain := h.1.2
  front := front
  back := back
  front_blank := h.2.1
  back_blank := h.2.2

/-- With a blank in front of the `=` a language is lost, and the attribute behind it; with a
blank behind the `=` a script is a setup script by the text of a title. -/
theorem misread_attributes :
    (extractScriptBlocks "<script lang = \"ts\" setup></script>" = .ok [⟨"", 26, false, none⟩] ∧
      extractScriptBlocks "<script lang=\"ts\" setup></script>" =
        .ok [⟨"", 24, true, some "ts"⟩]) ∧
    (extractScriptBlocks "<script title= \"no setup yet\"></script>" =
        .ok [⟨"", 30, true, none⟩] ∧
      extractScriptBlocks "<script title=\"no setup yet\"></script>" =
        .ok [⟨"", 29, false, none⟩]) := by
  have hfound : ∀ (attributes : List SpacedAttribute) {source : String} {b : ScriptBlock},
      (SpacedTag.mk "script".toList attributes).Quoted →
      (SpacedTag.mk "script".toList attributes).file [] [] [] = source.toList →
      (SpacedTag.mk "script".toList attributes).block [] [] = b →
      extractScriptBlocks source = .ok [b] := by
    rintro attributes source b hquoted hfile rfl
    have hnone : '<' ∉ ([] : List Char) := List.not_mem_nil
    have hblock := @extractScriptBlocks_file _ [] [] [] hquoted hnone (by decide) hnone
    rwa [hfile, String.ofList_toList] at hblock
  refine ⟨⟨?_, ?_⟩, ?_, ?_⟩
  · exact hfound [.plain "lang".toList (some (.double "ts".toList)) [' '] [' '],
      .plain "setup".toList none [] []] (by decide) (by decide) (by decide)
  · exact hfound [.plain "lang".toList (some (.double "ts".toList)) [] [],
      .plain "setup".toList none [] []] (by decide) (by decide) (by decide)
  · refine hfound [.plain "title".toList (some (.double "no setup yet".toList)) [] [' ']]
      (by decide) (by decide) ?_
    have hunderstood : understood
        [.plain "title".toList (some (.double "no setup yet".toList)) [] [' ']] =
          ⟨"title".toList, some []⟩ :: entries "\"no setup yet\"".toList := rfl
    rw [SpacedTag.block, hunderstood, entries_title]
    decide
  · exact hfound [.plain "title".toList (some (.double "no setup yet".toList)) [] []]
      (by decide) (by decide) (by decide)

/-- Blanks in the last attribute make no difference if that is not the language; in front of
other attributes they can. -/
theorem spacing_immaterial_iff_lang :
    (∀ after, extractScriptBlocks ("<script setup src = \"./a.ts\"></script>" ++ after) =
      moved ScriptBlock.shift 2
        (extractScriptBlocks ("<script setup src=\"./a.ts\"></script>" ++ after))) ∧
    ¬ ∀ after, extractScriptBlocks ("<script lang = \"ts\" setup></script>" ++ after) =
      moved ScriptBlock.shift 2
        (extractScriptBlocks ("<script lang=\"ts\" setup></script>" ++ after)) := by
  have hjoin : ∀ {t : SpacedTag} {source : String}, t.file [] [] [] = source.toList →
      ∀ after : List Char, String.ofList (t.file [] [] after) = source ++ String.ofList after := by
    intro t source hfile after
    have hsplit : t.file [] [] after = t.file [] [] [] ++ after := by simp [SpacedTag.file]
    rw [hsplit, hfile, String.ofList_append, String.ofList_toList]
  have hlaw : ∀ (attributes : List SpacedAttribute) {spaced tight : String},
      (SpacedTag.mk "script".toList attributes).Quoted →
      (SpacedTag.mk "script".toList attributes).file [] [] [] = spaced.toList →
      (SpacedTag.mk "script".toList attributes).tight.file [] [] [] = tight.toList →
      byteLength (SpacedTag.mk "script".toList attributes).blanks = 2 →
      ((∀ after, extractScriptBlocks (spaced ++ after) =
          moved ScriptBlock.shift 2 (extractScriptBlocks (tight ++ after))) ↔
        Entry.setup (understood attributes) = Entry.setup (attributes.map SpacedAttribute.meant) ∧
          Entry.lang (understood attributes) =
            Entry.lang (attributes.map SpacedAttribute.meant)) := by
    intro attributes spaced tight hquoted hspaced htight hblanks
    have hiff := (@spacing_immaterial_iff _ [] [] hquoted List.not_mem_nil (by decide)).2
    rw [hblanks] at hiff
    rw [← hiff]
    constructor
    · intro hsame after
      rw [hjoin hspaced, hjoin htight, hsame]
    · intro hsame after
      have hafter := hsame after.toList
      rwa [hjoin hspaced, hjoin htight, String.ofList_toList] at hafter
  constructor
  · refine (hlaw [.plain "setup".toList none [] [],
      .plain "src".toList (some (.double "./a.ts".toList)) [' '] [' ']] ?_ ?_ ?_ ?_).mpr ?_
    all_goals decide
  · have hlang := hlaw [.plain "lang".toList (some (.double "ts".toList)) [' '] [' '],
      .plain "setup".toList none [] []] (by decide)
      (show _ = "<script lang = \"ts\" setup></script>".toList by decide)
      (show _ = "<script lang=\"ts\" setup></script>".toList by decide) (by decide)
    exact fun hsame => absurd (hlang.mp hsame).1 (by decide)

end EmitLint.Sfc.Written
