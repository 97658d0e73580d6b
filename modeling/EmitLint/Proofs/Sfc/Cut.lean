/-
# Where script blocks are cut out

The scan runs over bytes, and a block is cut out of the text afterwards.  Main
statement: `slice?_of_mem_blocks`, the content of a block is the piece of the
source that stands at its offset.  The cut never falls into a character, since
in front of it stands the byte `>` of a tag, and behind it the byte `<`.
-/
import EmitLint.Proofs.Sfc.Parts
import EmitLint.Proofs.Text.Boundary

namespace EmitLint.Sfc

/-- The bytes of a span stand between `>` and `<`. -/
structure Cut (bs : List UInt8) (s : Span) : Prop where
  forwards : s.start ≤ s.stop
  front : ∃ n, s.start = n + 1 ∧ bs[n]? = some 62
  behind : bs[s.stop]? = some 60

/-! ## The ranges that are found -/

theorem getElem?_of_openingTag {bs : List UInt8} {n : Nat} (h : OpeningTag bs n) :
    ∃ m, n = m + 1 ∧ bs[m]? = some 62 := by
  obtain ⟨-, text, rest, hbs, -, rfl⟩ := h
  refine ⟨Mark.script.length + text.length, rfl, ?_⟩
  rw [← List.getElem?_drop, hbs, List.getElem?_append_right (Nat.le_refl _), Nat.sub_self]
  rfl

theorem head?_of_closes {bs : List UInt8} (h : Closes bs) : bs.head? = some 60 := by
  cases bs with
  | nil => cases h
  | cons b bs =>
      have hlower : lower b = 60 := by
        rw [Closes, startsWith, Mark.length_scriptEnd, beq_iff_eq] at h
        exact (List.cons.inj h).1
      rw [eq_of_lower hlower]
      rfl

/-- An element is cut behind its opening tag and in front of its closing tag. -/
theorem cut_of_stands {bs : List UInt8} {tag content : Nat} (h : Stands bs (.element tag content)) :
    Cut bs ⟨tag, tag + content⟩ := by
  cases h with
  | element htag _ hfirst =>
      have hbehind := head?_of_closes hfirst.1
      rw [List.drop_drop, List.head?_drop] at hbehind
      exact ⟨Nat.le_add_right _ _, getElem?_of_openingTag htag, hbehind⟩

theorem cut_of_drop {bs : List UInt8} {pos : Nat} {s : Span} (h : Cut (bs.drop pos) s) :
    Cut bs ⟨pos + s.start, pos + s.stop⟩ := by
  obtain ⟨hforwards, ⟨n, hn, hfront⟩, hbehind⟩ := h
  rw [List.getElem?_drop] at hfront hbehind
  exact ⟨Nat.add_le_add_left hforwards pos, ⟨pos + n, by rw [hn]; rfl, hfront⟩, hbehind⟩

/-- The range of a part is cut out of the text around it. -/
theorem cut_of_range? {all : List UInt8} {p : Part} {r : BlockRange} (h : p.StandsIn all)
    (hr : p.range? all = some r) : Cut all r.content := by
  unfold Part.range? at hr
  split at hr
  · rename_i tag content hpiece
    obtain rfl := Option.some.inj hr
    have hcut := cut_of_drop (cut_of_stands (hpiece ▸ h.stands))
    rw [← Nat.add_assoc] at hcut
    exact hcut
  · cases hr

theorem cut_of_scan {all : List UInt8} {ranges : List BlockRange}
    (h : scan 0 all [] = .ok ranges) : ∀ r ∈ ranges, Cut all r.content := by
  obtain ⟨parts, hreads, rfl⟩ := reads_of_scan List.drop_zero.symm h
  intro r hr
  obtain ⟨p, hp, hrange⟩ := List.mem_filterMap.mp hr
  exact cut_of_range? (standsIn_of_reads hreads p hp) hrange

/-! ## The text of a block -/

theorem slice?_of_cut {source : String} {s : Span} (h : Cut (Text.bytes source) s) :
    ∃ inside, Text.slice? source.toList s.start s.stop = some inside := by
  obtain ⟨hforwards, ⟨n, hn, hfront⟩, hbehind⟩ := h
  refine Text.slice?_of_splitAt? hforwards ?_ (Text.splitAt?_of_ascii hbehind (by decide)).1
  rw [hn]
  exact (Text.splitAt?_of_ascii hfront (by decide)).2

/-- A block is cut out of its file whole. -/
theorem slice?_of_ofRange {source : String} {r : BlockRange}
    (h : Cut (Text.bytes source) r.content) :
    Text.slice? source.toList r.content.start r.content.stop =
        some (ScriptBlock.ofRange source r).content.toList ∧
      r.content.start + Text.byteLength (ScriptBlock.ofRange source r).content.toList =
        r.content.stop := by
  obtain ⟨inside, hslice⟩ := slice?_of_cut h
  have hcontent : (ScriptBlock.ofRange source r).content.toList = inside := by
    rw [ScriptBlock.ofRange, Text.slice, hslice, Option.getD_some, String.toList_ofList]
  obtain ⟨before, after, -, hstart, hstop⟩ := Text.slice?_eq_some hslice
  rw [hcontent]
  exact ⟨hslice, by omega⟩

theorem exists_ranges {source : String} {blocks : List ScriptBlock}
    (h : extractScriptBlocks source = .ok blocks) :
    ∃ ranges, scan 0 (Text.bytes source) [] = .ok ranges ∧
      blocks = ranges.map (ScriptBlock.ofRange source) := by
  unfold extractScriptBlocks at h
  cases hscan : scan 0 (Text.bytes source) [] with
  | error e => rw [hscan] at h; cases h
  | ok ranges =>
      rw [hscan] at h
      exact ⟨ranges, rfl, (Except.ok.inj h).symm⟩

/-- The content of a block is what the source has at the offset of the block. -/
theorem slice?_of_mem_blocks {source : String} {blocks : List ScriptBlock} {b : ScriptBlock}
    (h : extractScriptBlocks source = .ok blocks) (hb : b ∈ blocks) :
    Text.slice? source.toList b.offset (b.offset + Text.byteLength b.content.toList) =
      some b.content.toList := by
  obtain ⟨ranges, hscan, rfl⟩ := exists_ranges h
  obtain ⟨r, hr, rfl⟩ := List.mem_map.mp hb
  obtain ⟨hslice, hlength⟩ := slice?_of_ofRange (cut_of_scan hscan r hr)
  show Text.slice? source.toList r.content.start (r.content.start + _) = _
  rw [hlength, hslice]

end EmitLint.Sfc
