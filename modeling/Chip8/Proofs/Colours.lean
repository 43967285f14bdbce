import Chip8.Proofs.Listing

/-!
# Listings in colour

The styles of a listing can be taken away again : `Style.strip` reads a text once, from left to
right, and drops the sequences `ESC [ digits m`. A text strips to another one if that is what is
left of it, whatever stands behind it (`Style.StripsTo`), so that texts that are put together strip
to what is left of the parts.

A styled text strips to the text if there is no escape character in it, and there is none in what a
listing shows. Nor does a style change which blanks are dropped at the end of a line : a line ends
with its description, which does not end in a blank, or with the reset behind it
(`Listing.styled_line`). `Listing.strip_listing` : without its escape sequences, a listing in colour
is the plain one.
-/

namespace Chip8

namespace Style

/-! ## Escape sequences -/

/-- What stands behind the escape sequence that a text begins with, if it begins with one. -/
def behindEscape? : List Char → Option (List Char)
  | '\x1b' :: '[' :: cs =>
    match cs.takeWhile Char.isDigit, cs.dropWhile Char.isDigit with
    | _ :: _, 'm' :: rest => some rest
    | _, _ => none
  | _ => none

variable {cs ds rest : List Char}

theorem length_behindEscape? (h : behindEscape? cs = some rest) : rest.length < cs.length := by
  unfold behindEscape? at h
  split at h
  · rename_i cs
    split at h
    · rename_i hdrop
      cases h
      have hlength := (List.dropWhile_suffix Char.isDigit (l := cs)).length_le
      rw [hdrop, List.length_cons] at hlength
      simp only [List.length_cons]
      omega
    · cases h
  · cases h

/-- A text without its escape sequences. -/
def strip : List Char → List Char
  | [] => []
  | c :: cs =>
    match _h : behindEscape? (c :: cs) with
    | some rest => strip rest
    | none => c :: strip cs
termination_by cs => cs.length
decreasing_by
  · exact length_behindEscape? _h
  · exact Nat.lt_succ_self _

theorem strip_of_behindEscape? (h : behindEscape? cs = some rest) : strip cs = strip rest := by
  cases cs with
  | nil => cases h
  | cons c cs =>
    rw [strip]
    split
    · rename_i hsome
      rw [h] at hsome
      cases hsome
      rfl
    · rename_i hnone
      rw [h] at hnone
      cases hnone

theorem strip_cons_of_ne {c : Char} (h : c ≠ '\x1b') (cs : List Char) :
    strip (c :: cs) = c :: strip cs := by
  have hnone : behindEscape? (c :: cs) = none := by
    unfold behindEscape?
    split
    · rename_i heq
      exact absurd (List.cons.inj heq).1 h
    · rfl
  rw [strip]
  split
  · rename_i hsome
    rw [hnone] at hsome
    cases hsome
  · rfl

theorem behindEscape?_escape (code : Nat) (rest : List Char) :
    behindEscape? (escape code ++ rest) = some rest := by
  have hdigits : ∀ c ∈ Numeral.digits 10 code, c.isDigit = true :=
    Numeral.isDigit_of_mem_digits
  obtain ⟨d, ds, hcons⟩ :=
    List.exists_cons_of_length_pos (Numeral.length_digits_pos 10 code)
  have hm : Char.isDigit 'm' = false := rfl
  have htext : escape code ++ rest =
      '\x1b' :: '[' :: (Numeral.digits 10 code ++ 'm' :: rest) := by
    simp [escape]
  have htake : (Numeral.digits 10 code ++ 'm' :: rest).takeWhile Char.isDigit = d :: ds := by
    rw [List.takeWhile_append_of_pos hdigits, List.takeWhile_cons_of_neg (by simp [hm]),
      List.append_nil, hcons]
  have hdrop : (Numeral.digits 10 code ++ 'm' :: rest).dropWhile Char.isDigit =
      'm' :: rest := by
    rw [List.dropWhile_append_of_pos hdigits, List.dropWhile_cons_of_neg (by simp [hm])]
  rw [htext]
  simp only [behindEscape?, htake, hdrop]

/-! ## Texts and what is left of them -/

/-- `ds` is what is left of `cs`, whatever stands behind it. -/
def StripsTo (cs ds : List Char) : Prop := ∀ rest, strip (cs ++ rest) = ds ++ strip rest

theorem StripsTo.strip_eq (h : StripsTo cs ds) : strip cs = ds := by
  have hnil := h []
  rw [strip] at hnil
  simpa using hnil

theorem StripsTo.append {cs' ds' : List Char} (h : StripsTo cs ds) (h' : StripsTo cs' ds') :
    StripsTo (cs ++ cs') (ds ++ ds') := by
  intro rest
  rw [List.append_assoc, h, h', List.append_assoc]

theorem StripsTo.flatMap {α : Type} {f g : α → List Char} {as : List α}
    (h : ∀ a ∈ as, StripsTo (f a) (g a)) : StripsTo (as.flatMap f) (as.flatMap g) := by
  induction as with
  | nil => exact fun _ => rfl
  | cons a as ih =>
    obtain ⟨ha, has⟩ := List.forall_mem_cons.1 h
    exact ha.append (ih has)

theorem stripsTo_self (h : '\x1b' ∉ cs) : StripsTo cs cs := by
  intro rest
  induction cs with
  | nil => rfl
  | cons c cs ih =>
    obtain ⟨hc, hcs⟩ := not_or.1 (mt List.mem_cons.2 h)
    rw [List.cons_append, strip_cons_of_ne (Ne.symm hc), ih hcs, List.cons_append]

theorem stripsTo_escape (code : Nat) : StripsTo (escape code) [] := fun rest =>
  strip_of_behindEscape? (behindEscape?_escape code rest)

/-- A style is left out, and nothing else of a text without escape characters. -/
theorem stripsTo_paint (style : Option Style) (h : '\x1b' ∉ cs) : StripsTo (paint style cs) cs := by
  have htext := stripsTo_self h
  cases style with
  | none => exact htext
  | some s =>
    have hpainted := ((stripsTo_escape s.code).append htext).append (stripsTo_escape 0)
    rwa [List.nil_append, List.append_nil] at hpainted

/-- A tidy text in a style ends with its own last character or with a reset, and in no blank. -/
theorem last_paint (style : Option Style) {text : List Char} (h : Text.Tidy text) :
    (paint style text).getLast?.any (fun c => !Text.isBlank c) = true := by
  cases style with
  | none => exact h.last
  | some s =>
    have hreset : (escape 0).getLast?.any (fun c => !Text.isBlank c) = true := by decide +kernel
    have hne : escape 0 ≠ [] := nofun
    rw [paint, List.getLast?_append_of_ne_nil _ hne]
    exact hreset

/-! ## Escape characters -/

theorem count_escape (code : Nat) : (escape code).count '\x1b' = 1 := by
  have hdigits : '\x1b' ∉ Numeral.digits 10 code := fun hmem =>
    absurd (Numeral.isDigit_of_mem_digits _ hmem) (by decide)
  have hfinal : '\x1b' ∉ ['m'] := by decide
  rw [escape, List.count_cons_self, List.count_cons_of_ne (by decide), List.count_append,
    List.count_eq_zero_of_not_mem hdigits, List.count_eq_zero_of_not_mem hfinal]

/-- A style has an escape character before its text and one behind it. -/
theorem count_paint (style : Option Style) (h : '\x1b' ∉ cs) :
    (paint style cs).count '\x1b' = if style.isSome then 2 else 0 := by
  have htext : cs.count '\x1b' = 0 := List.count_eq_zero_of_not_mem h
  cases style with
  | none => exact htext
  | some s => simp [paint, List.count_append, count_escape, htext]

end Style

/-! ## Records -/

namespace Record

/-- A record is made of one or two bytes, and it has them. -/
theorem exists_ofBytes {chunk : List UInt8} (h : chunk.length = 1 ∨ chunk.length = 2) :
    ∃ r : Record, ofBytes chunk = .ok r ∧ r.bytes = chunk := by
  match chunk, h with
  | [value], _ => exact ⟨.byte value, rfl, rfl⟩
  | [high, low], _ => exact ⟨.word high low, rfl, rfl⟩

theorem exists_mapM_ofBytes {chunks : List (List UInt8)}
    (h : ∀ chunk ∈ chunks, chunk.length = 1 ∨ chunk.length = 2) :
    ∃ rs, chunks.mapM ofBytes = .ok rs ∧ rs.map bytes = chunks := by
  induction chunks with
  | nil => exact ⟨[], rfl, rfl⟩
  | cons chunk chunks ih =>
    obtain ⟨hchunk, hchunks⟩ := List.forall_mem_cons.1 h
    obtain ⟨r, hr, hrbytes⟩ := exists_ofBytes hchunk
    obtain ⟨rs, hrs, hrsbytes⟩ := ih hchunks
    refine ⟨r :: rs, ?_, ?_⟩
    · rw [List.mapM_cons, hr, hrs]
      rfl
    · rw [List.map_cons, hrbytes, hrsbytes]

end Record

namespace Listing

open Style

/-! ## Lines -/

section Lines

variable {width : Column → Nat} {cell : Column → List Char}

/-- In all styles a line ends with its description, so that nothing of it is dropped. -/
theorem Shown.styled_line (h : Shown width cell) (style : Column → Option Style) :
    line width style cell =
      (Column.padded.flatMap fun c => paint (style c) ((cell c).rightpad (width c) ' ') ++ gap) ++
        paint (style .description) (cell .description) := by
  have hlast := last_paint (style .description) h.last
  have hne : paint (style .description) (cell .description) ≠ [] := by
    intro hnil
    rw [hnil] at hlast
    exact Bool.false_ne_true hlast
  refine Text.trimEnd_of_last ?_
  rwa [List.getLast?_append_of_ne_nil _ hne]

theorem Shown.escape_not_mem_rightpad (h : Shown width cell) (c : Column) :
    '\x1b' ∉ (cell c).rightpad (width c) ' ' :=
  ((h.printable c).append (Text.printable_replicate _)).not_mem rfl

/-- In all styles a line strips to the plain one. -/
theorem Shown.stripsTo_line (h : Shown width cell) (style : Column → Option Style) :
    StripsTo (line width style cell) (line width (fun _ => none) cell) := by
  have hgap : '\x1b' ∉ gap := by decide
  have hdescription : '\x1b' ∉ cell .description := (h.printable _).not_mem rfl
  rw [h.styled_line, h.line_eq]
  refine StripsTo.append (StripsTo.flatMap fun c _ => ?_) (stripsTo_paint _ hdescription)
  exact (stripsTo_paint _ (h.escape_not_mem_rightpad c)).append (stripsTo_self hgap)

/-- Two escape characters for every column that has a style. -/
theorem Shown.count_line (h : Shown width cell) (style : Column → Option Style) :
    (line width style cell).count '\x1b' =
      ((Column.padded ++ [Column.description]).map fun c =>
        if (style c).isSome then 2 else 0).sum := by
  have hgap : gap.count '\x1b' = 0 := by decide
  have hdescription : '\x1b' ∉ cell .description := (h.printable _).not_mem rfl
  have hcell : ∀ c, (paint (style c) ((cell c).rightpad (width c) ' ') ++ gap).count '\x1b' =
      if (style c).isSome then 2 else 0 := fun c => by
    rw [List.count_append, count_paint _ (h.escape_not_mem_rightpad c), hgap, Nat.add_zero]
  rw [h.styled_line, List.count_append, List.count_flatMap, count_paint _ hdescription,
    List.map_append, List.sum_append, List.map_singleton, List.sum_singleton]
  exact congrArg (· + _) (congrArg List.sum (List.map_congr_left fun c _ => hcell c))

end Lines

/-! ## Listings -/

/-- A coloured listing, the end of every line included, strips to the plain one. -/
theorem stripsTo_lines (rs : List Row) :
    StripsTo ((lines true rs).flatMap (· ++ ['\n'])) ((lines false rs).flatMap (· ++ ['\n'])) := by
  have hend : StripsTo ['\n'] ['\n'] := stripsTo_self (by decide)
  have htitle := (shown_title rs).stripsTo_line (titleStyle true)
  have hrows : StripsTo
      (rs.flatMap fun r => line (width rs) (rowStyle true r) r.cell ++ ['\n'])
      (rs.flatMap fun r => line (width rs) (fun _ => none) r.cell ++ ['\n']) :=
    StripsTo.flatMap fun r hr => ((shown_cell hr).stripsTo_line (rowStyle true r)).append hend
  rw [lines_plain, lines_eq, List.flatMap_cons, List.flatMap_cons, List.flatMap_map,
    List.flatMap_map]
  exact (htitle.append hend).append hrows

/-- In colour, the five titles and four cells of every row are styled. -/
theorem count_lines (color : Bool) (rs : List Row) :
    ((lines color rs).flatMap (· ++ ['\n'])).count '\x1b' =
      if color then 10 + 8 * rs.length else 0 := by
  have hend : ['\n'].count '\x1b' = 0 := by decide
  have htitle : (line (width rs) (titleStyle color) Column.title).count '\x1b' =
      if color then 10 else 0 := by
    rw [(shown_title rs).count_line]
    cases color <;> rfl
  have hrow : ∀ r ∈ rs, (line (width rs) (rowStyle color r) r.cell ++ ['\n']).count '\x1b' =
      if color then 8 else 0 := fun r hr => by
    rw [List.count_append, hend, (shown_cell hr).count_line]
    cases color <;> rfl
  have hrows : (rs.flatMap fun r => line (width rs) (rowStyle color r) r.cell ++ ['\n']).count
      '\x1b' = rs.length * if color then 8 else 0 := by
    rw [List.count_flatMap, ← List.sum_replicate_nat, ← List.map_const']
    exact congrArg List.sum (List.map_congr_left hrow)
  rw [lines_eq, List.flatMap_cons, List.flatMap_map, List.count_append, List.count_append,
    htitle, hend, hrows]
  cases color
  · rfl
  · exact congrArg (10 + ·) (Nat.mul_comm _ _)

/-- One or two bytes each, in any order, make records, and these have a listing. In colour it has
two escape characters for each title and for each cell but the descriptions, and none otherwise.
Without its escape sequences the listing in colour is the plain one, whatever the bytes are. -/
theorem strip_listing (chunks : List (List UInt8))
    (h : ∀ chunk ∈ chunks, chunk.length = 1 ∨ chunk.length = 2) :
    ∃ rs : List Record, chunks.mapM Record.ofBytes = .ok rs ∧ rs.map Record.bytes = chunks ∧
      strip (listing true rs).toList = (listing false rs).toList ∧
      ∀ color, (listing color rs).toList.count '\x1b' =
        if color then 10 + 8 * rs.length else 0 := by
  obtain ⟨rs, hrs, hbytes⟩ := Record.exists_mapM_ofBytes h
  refine ⟨rs, hrs, hbytes, ?_, fun color => ?_⟩
  · rw [listing, listing, String.toList_ofList, String.toList_ofList]
    exact (stripsTo_lines (rows rs)).strip_eq
  · rw [listing, String.toList_ofList, count_lines, ← List.length_map Row.record, map_record_rows]

/-- A lone escape character, what could stand behind it, and a letter that ends a sequence. -/
theorem strip_listing_escape : ∃ rs : List Record,
    rs = [.byte 0x1B, .word 0x5B 0x30, .byte 0x6D] ∧
    strip (listing true rs).toList = (listing false rs).toList ∧
    (listing true rs).toList.count '\x1b' = 34 := by
  obtain ⟨rs, hrs, -, hstrip, hcount⟩ :=
    strip_listing [[0x1B], [0x5B, 0x30], [0x6D]] (by decide)
  cases hrs
  exact ⟨_, rfl, hstrip, hcount true⟩

end Listing

end Chip8
