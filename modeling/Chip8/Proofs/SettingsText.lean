import Chip8.Proofs.Json
import Chip8.Settings.Text

/-!
# Settings and their texts

Settings of any values, valid or not, are an object with a member for each field
(`Settings.member`), and `Settings.toText` writes a text of this object (`Settings.written_toText`).
What is read from a text of an object depends on its members only : those that name a field give its
value, the others are passed over whatever they hold, and a field that no member names has its
default (`Settings.Members`, `Settings.takeFrom`).

`Settings.ofText_toText` puts both together : settings are read as they were written, and so is any
other text that gives some of their fields.
-/

namespace Chip8

namespace Settings

open Json

/-! ## Fields as values -/

/-- The value of a field as JSON. -/
def Field.toJson (s : Settings) : Field → Json
  | memorySize => .number (.ofNat s.memorySize.toNat)
  | stackSize => .number (.ofNat s.stackSize.toNat)
  | width => .number (.ofNat s.width.toNat)
  | height => .number (.ofNat s.height.toNat)
  | compactLayout => .bool s.compactLayout
  | legacyMode => .bool s.legacyMode

/-- The settings `t`, with some fields taken from `s`. -/
def takeFrom (t s : Settings) (fields : List Field) : Settings where
  memorySize := if .memorySize ∈ fields then s.memorySize else t.memorySize
  stackSize := if .stackSize ∈ fields then s.stackSize else t.stackSize
  width := if .width ∈ fields then s.width else t.width
  height := if .height ∈ fields then s.height else t.height
  compactLayout := if .compactLayout ∈ fields then s.compactLayout else t.compactLayout
  legacyMode := if .legacyMode ∈ fields then s.legacyMode else t.legacyMode

theorem takeFrom_all (t s : Settings) : t.takeFrom s Field.all = s := rfl

theorem takeFrom_cons (t s : Settings) (f : Field) (fs : List Field) :
    t.takeFrom s (f :: fs) = (t.takeFrom s [f]).takeFrom s fs := by
  unfold takeFrom
  cases f <;> simp

theorem Field.size?_ofNat (n : UInt64) : size? (.number (.ofNat n.toNat)) = some n := by
  rw [size?, Number.nat?_ofNat n.toNat_lt, Option.map_some, UInt64.ofNat_toNat]

theorem Field.pixels?_ofNat (n : UInt8) : pixels? (.number (.ofNat n.toNat)) = some n := by
  rw [pixels?, Number.nat?_ofNat n.toNat_lt, Option.map_some, UInt8.ofNat_toNat]

/-- Every value of a field is of its kind. -/
theorem set?_toJson (t s : Settings) (f : Field) :
    f.set? t (f.toJson s) = some (t.takeFrom s [f]) := by
  cases f <;> simp only [Field.set?, Field.toJson, Field.size?_ofNat, Field.pixels?_ofNat,
    Field.switch?, Option.map_some] <;> rfl

/-! ## Reading -/

/-- The values of fields in a row are read as the fields of these settings. -/
theorem readItems_map_toJson (t s : Settings) (fields : List Field) :
    readItems t fields (fields.map (Field.toJson s)) = some (t.takeFrom s fields) := by
  induction fields generalizing t with
  | nil => rfl
  | cons f fs ih =>
    rw [List.map_cons, readItems, set?_toJson, Option.bind_some, ih, ← takeFrom_cons]

theorem Field.ofKey?_key (f : Field) : ofKey? f.key.toList = some f := by
  cases f <;> decide

theorem Field.ofKey?_eq_none {name : List Char} (h : ∀ f : Field, f.key.toList ≠ name) :
    ofKey? name = none :=
  List.find?_eq_none.2 fun f _ => by simp [h f]

/-- Members of an object that give the fields of `s` in a list, in its order and with the keys
written in any way. Others may stand between them that have the key of no field. -/
inductive Members (s : Settings) : List Field → List (List Piece × Json) → Prop
  | nil : Members s [] []
  | field {f : Field} {fields : List Field} {key : List Piece} {members : List (List Piece × Json)}
      (hkey : characters? key = some f.key.toList) (hmembers : Members s fields members) :
      Members s (f :: fields) ((key, f.toJson s) :: members)
  | other {name : List Char} {fields : List Field} {key : List Piece} {value : Json}
      {members : List (List Piece × Json)} (hkey : characters? key = some name)
      (hname : ∀ f : Field, f.key.toList ≠ name) (hmembers : Members s fields members) :
      Members s fields ((key, value) :: members)

theorem readMembers_of_members {s : Settings} {fields : List Field}
    {members : List (List Piece × Json)} (h : Members s fields members) (hnodup : fields.Nodup)
    (t : Settings) {seen : List Field} (hseen : ∀ f ∈ fields, f ∉ seen) :
    readMembers t seen members = some (t.takeFrom s fields) := by
  induction h generalizing t seen with
  | nil => rfl
  | @field f fields key members hkey _ ih =>
    obtain ⟨hf, hfields⟩ := List.nodup_cons.1 hnodup
    obtain ⟨hfresh, hrest⟩ := List.forall_mem_cons.1 hseen
    have hnext : ∀ g ∈ fields, g ∉ f :: seen := fun g hg hmem => by
      rcases List.mem_cons.1 hmem with rfl | hmem
      · exact hf hg
      · exact hrest g hg hmem
    simp only [readMembers, hkey, Field.ofKey?_key]
    rw [if_neg hfresh, set?_toJson, Option.bind_some, ih hfields _ hnext, ← takeFrom_cons]
  | other hkey hname _ ih =>
    simp only [readMembers, hkey, Field.ofKey?_eq_none hname]
    exact ih hnodup t hseen

/-- An object is read as the fields that it gives, the others having their defaults. -/
theorem ofText_of_members {s : Settings} {fields : List Field} {members : List (List Piece × Json)}
    (h : Members s fields members) (hnodup : fields.Nodup) {text : String}
    (htext : Written (.object members) text.toList) :
    ofText text = .ok (takeFrom {} s fields) := by
  have hfresh : ∀ f ∈ fields, f ∉ ([] : List Field) := fun _ _ => List.not_mem_nil
  have hread := readMembers_of_members h hnodup {} hfresh
  simp only [ofText, parse_of_written htext, Option.bind_some, ofJson?, hread]

/-! ## Writing -/

/-- The member of a field, as it is written. -/
def member (s : Settings) (f : Field) : List Piece × Json := (f.key.toList.map .char, f.toJson s)

theorem members_map_member (s : Settings) (fields : List Field) :
    Members s fields (fields.map s.member) := by
  induction fields with
  | nil => exact .nil
  | cons f fs ih => exact .field (characters?_map_char _) ih

/-- A value is written as one token. -/
theorem joined_toJson (s : Settings) (f : Field) {blank : List Char} (hblank : Blank blank) :
    Joined Token.Placed (tokens (f.toJson s)) (blank ++ (f.valueText s).toList) := by
  have hplaced : ∀ {t : Token} {word : List Char}, t.Spelled word →
      Joined Token.Placed [t] (blank ++ word) := fun {t word} hword => by
    have h : Joined Token.Placed [t] ((blank ++ word) ++ []) :=
      .cons ⟨blank, word, hblank, hword, rfl⟩ .nil
    rwa [List.append_nil] at h
  have hnumber : ∀ n, Token.Spelled (.number (.ofNat n)) (Numeral.decimal n).toList := fun n => by
    have h := Token.Spelled.number (Number.wellFormed_ofNat n)
    rw [Numeral.decimal, String.toList_ofList]
    simpa [Number.text, Number.ofNat] using h
  have hswitch : ∀ b : Bool, Token.Spelled (.bool b) (if b then "true" else "false").toList := by
    rintro (_ | _)
    · exact .isFalse
    · exact .isTrue
  cases f <;> simp only [Field.toJson, Field.valueText, tokens]
  case compactLayout | legacyMode => exact hplaced (hswitch _)
  all_goals exact hplaced (hnumber _)

theorem joined_memberText (s : Settings) (f : Field) {blank : List Char} (hblank : Blank blank) :
    Joined Token.Placed (.string (f.key.toList.map .char) :: .colon :: tokens (f.toJson s))
      (blank ++ (s.memberText f).toList) := by
  have hkey : Plain f.key.toList := by
    cases f <;> decide
  have hindent : Blank [' ', ' '] := by decide
  have hgap : Blank [' '] := by decide
  have htext : blank ++ (s.memberText f).toList =
      ((blank ++ [' ', ' ']) ++ '"' :: (f.key.toList ++ ['"'])) ++
        ([':'] ++ ([' '] ++ (f.valueText s).toList)) := by
    simp [memberText]
  rw [htext]
  exact .cons ⟨_, _, hblank.append hindent, .string (joined_plain hkey), rfl⟩
    (.cons ⟨[], [':'], blank_nil, .colon, rfl⟩ (joined_toJson s f hgap))

theorem joined_memberTexts (s : Settings) (fields : List Field) :
    Joined Token.Placed (memberTokens (fields.map s.member))
      (fields.flatMap fun f => ',' :: '\n' :: (s.memberText f).toList) := by
  have hbreak : Blank ['\n'] := by decide
  have hcomma : Token.Placed .comma [','] := ⟨[], [','], blank_nil, .comma, rfl⟩
  induction fields with
  | nil => exact .nil
  | cons f fs ih =>
    have hjoined := Joined.cons hcomma ((joined_memberText s f hbreak).append ih)
    rw [List.map_cons, member, memberTokens, List.flatMap_cons]
    exact hjoined

/-- Settings are written as an object with all their fields, and a comma before each but the first
one. -/
theorem written_toText (s : Settings) :
    Written (.object (Field.all.map s.member)) s.toText.toList := by
  have hbreak : Blank ['\n'] := by decide
  have htext : s.toText.toList = ['{'] ++ ((['\n'] ++ (s.memberText .memorySize).toList) ++
      ([Field.stackSize, .width, .height, .compactLayout, .legacyMode].flatMap fun f =>
        ',' :: '\n' :: (s.memberText f).toList) ++ ['\n', '}']) := by
    simp [toText, Field.all]
  refine ⟨s.toText.toList, [], ?_, blank_nil, (List.append_nil _).symm⟩
  have hbrace : Token.Placed .closeBrace ['\n', '}'] :=
    ⟨['\n'], ['}'], hbreak, .closeBrace, rfl⟩
  have hmembers := (joined_memberText s .memorySize hbreak).append (joined_memberTexts s
    [.stackSize, .width, .height, .compactLayout, .legacyMode])
  rw [htext, tokens]
  exact .cons ⟨[], ['{'], blank_nil, .openBrace, rfl⟩ (hmembers.append (.cons hbrace .nil))

/-! ## There and back -/

/-- What is written for settings is read as these, with any blanks between the tokens. -/
theorem ofText_of_written {s : Settings} {text : String}
    (h : Written (.object (Field.all.map s.member)) text.toList) : ofText text = .ok s := by
  have hnodup : Field.all.Nodup := by decide
  rw [ofText_of_members (members_map_member s Field.all) hnodup h, takeFrom_all]

/-- Settings of any values, valid or not, are read as they were written. So is every other text that
gives all fields, as an object or as an array of the values in their order, with any blanks between
its tokens. An object that gives some of the fields, in any order and with any other members between
them, leaves the others at their defaults. -/
theorem ofText_toText (s : Settings) :
    ofText s.toText = .ok s ∧
    (∀ (fields : List Field) (members : List (List Piece × Json)) (text : String),
      fields.Nodup → Members s fields members → Written (.object members) text.toList →
        ofText text = .ok (takeFrom {} s fields)) ∧
    ∀ text : String, Written (.array (Field.all.map (Field.toJson s))) text.toList →
      ofText text = .ok s := by
  refine ⟨ofText_of_written (written_toText s), fun fields members text hnodup hmembers htext =>
    ofText_of_members hmembers hnodup htext, fun text htext => ?_⟩
  have hread := readItems_map_toJson {} s Field.all
  rw [takeFrom_all] at hread
  simp only [ofText, parse_of_written htext, Option.bind_some, ofJson?, hread]

/-- A member that names no field may hold whatever is JSON, and the key of one that does may be
written with escapes. -/
theorem ofText_toText_escaped :
    ofText "\x7b\"x\": [\x7b\x7d,-1.5e3] ,\"\\u0077idth\":8\x7d" = .ok { width := 8 } := by
  let s : Settings := { width := 8 }
  let number : Number := ⟨true, ['1'], ['.', '5', 'e', '3']⟩
  let key : List Piece := .unit 0x77 :: ['i', 'd', 't', 'h'].map .char
  let members : List (List Piece × Json) :=
    [([.char 'x'], .array [.object [], .number number]), (key, .number (.ofNat 8))]
  obtain ⟨-, hobject, -⟩ := ofText_toText s
  have hother : characters? [.char 'x'] = some ['x'] := rfl
  have hmembers : Members s [.width] members :=
    .other hother (by intro f; cases f <;> decide) (.field (f := .width) (by decide) .nil)
  have hnumber : number.WellFormed :=
    ⟨.inr ⟨by decide, by decide⟩, ['.', '5'], ['e', '3'], .inr ⟨['5'], by decide, rfl⟩,
      .inr ⟨'e', [], ['3'], .inl rfl, .inl rfl, by decide, rfl⟩, rfl⟩
  have hname : Joined Piece.Spelled (['x'].map .char) ['x'] := joined_plain (by decide)
  have hletter : Piece.Spelled (.unit 0x77) ['\\', 'u', '0', '0', '7', '7'] := .unit (by decide)
  have hkey : Joined Piece.Spelled key ['\\', 'u', '0', '0', '7', '7', 'i', 'd', 't', 'h'] :=
    .cons hletter (joined_plain (by decide))
  have height : (Number.ofNat 8).text = ['8'] := by
    simp [Number.text, Number.ofNat, Numeral.digits_of_lt, Numeral.digitChar]
  have hjoined : Joined Token.Placed (tokens (.object members)) _ :=
    .cons ⟨[], _, blank_nil, .openBrace, rfl⟩ <|
    .cons ⟨[], _, blank_nil, .string hname, rfl⟩ <|
    .cons ⟨[], _, blank_nil, .colon, rfl⟩ <|
    .cons ⟨[' '], _, by decide, .openBracket, rfl⟩ <|
    .cons ⟨[], _, blank_nil, .openBrace, rfl⟩ <|
    .cons ⟨[], _, blank_nil, .closeBrace, rfl⟩ <|
    .cons ⟨[], _, blank_nil, .comma, rfl⟩ <|
    .cons ⟨[], _, blank_nil, .number hnumber, rfl⟩ <|
    .cons ⟨[], _, blank_nil, .closeBracket, rfl⟩ <|
    .cons ⟨[' '], _, by decide, .comma, rfl⟩ <|
    .cons ⟨[], _, blank_nil, .string hkey, rfl⟩ <|
    .cons ⟨[], _, blank_nil, .colon, rfl⟩ <|
    .cons ⟨[], _, blank_nil, .number (Number.wellFormed_ofNat 8), rfl⟩ <|
    .cons ⟨[], _, blank_nil, .closeBrace, rfl⟩ .nil
  rw [height] at hjoined
  exact hobject [.width] members _ (by decide) hmembers ⟨_, [], hjoined, blank_nil, by decide⟩

end Settings

end Chip8
