import LaneBoost.Objective.Catalog
import Mathlib.Data.List.TakeWhile

/-!
# Which bytes spell a name

The lookup decodes bytes, takes blanks off both ends of the text and folds the case of its letters.
Seen from the bytes, it finds a registration just if they are its name, up to case, between blanks that
are written in UTF-8. Whatever is not UTF-8, and whatever has other bytes around a name, finds none.
-/
namespace LaneBoost

namespace Name

/-! ### Texts in UTF-8 -/

/-- The bytes of a text in UTF-8. -/
def encode (text : List Char) : List UInt8 := text.flatMap String.utf8EncodeChar

@[simp] theorem encode_cons (c : Char) (text : List Char) :
    encode (c :: text) = String.utf8EncodeChar c ++ encode text := rfl

@[simp] theorem encode_append (a b : List Char) : encode (a ++ b) = encode a ++ encode b :=
  List.flatMap_append

theorem decode?_encode (text : List Char) : decode? (encode text) = some text := by
  have decoded : (encode text).toByteArray.utf8Decode? = some text.toArray :=
    List.utf8Decode?_utf8Encode
  rw [decode?, decoded]
  rfl

theorem encode_injective : Function.Injective encode := by
  intro a b h
  have decoded := congrArg decode? h
  simpa only [decode?_encode, Option.some.injEq] using decoded

theorem decode?_eq_some_iff {bytes : List UInt8} {text : List Char} :
    decode? bytes = some text ↔ bytes = encode text := by
  constructor
  · intro h
    obtain ⟨chars, decoded, rfl⟩ := Option.map_eq_some_iff.1 h
    have valid : bytes.toByteArray.utf8Decode?.isSome := by rw [decoded]; rfl
    have back := @ByteArray.utf8Encode_get_utf8Decode? _ valid
    simp only [decoded, Option.get_some] at back
    exact (List.toByteArray_inj.1 back).symm
  · rintro rfl
    exact decode?_encode text

theorem encodeChar_ofNat : ∀ n, n < 0x80 →
    String.utf8EncodeChar (Char.ofNat n) = [UInt8.ofNat n] := by
  decide

theorem encodeChar_of_ascii {c : Char} (ascii : c.toNat < 0x80) :
    String.utf8EncodeChar c = [UInt8.ofNat c.toNat] := by
  have encoded := encodeChar_ofNat c.toNat ascii
  rwa [Char.ofNat_toNat] at encoded

/-- Bytes of single characters, read one by one. -/
def singles (bytes : List UInt8) : List Char := bytes.map fun b => Char.ofNat b.toNat

theorem encode_singles {bytes : List UInt8} (ascii : ∀ b ∈ bytes, b.toNat < 0x80) :
    encode (singles bytes) = bytes := by
  induction bytes with
  | nil => rfl
  | cons b bytes ih =>
    have rest := ih fun b' hb => ascii b' (List.mem_cons_of_mem b hb)
    have first := encodeChar_ofNat b.toNat (ascii b List.mem_cons_self)
    rw [UInt8.ofNat_toNat] at first
    rw [singles, List.map_cons, encode_cons, first]
    exact congrArg (b :: ·) rest

/-! ### Letters of either case -/

/-- A byte, with the letters A to Z made small. -/
def lower (b : UInt8) : UInt8 := if 0x41 ≤ b ∧ b ≤ 0x5A then b + 0x20 else b

theorem lower_ofNat : ∀ n, n < 0x80 →
    [lower (UInt8.ofNat n)] = String.utf8EncodeChar (Char.ofNat n).toLower := by
  decide

theorem lower_of_large {n : Nat} (large : 0x80 ≤ n) (byte : n < 0x100) :
    lower (UInt8.ofNat n) = UInt8.ofNat n := by
  refine if_neg fun letter => ?_
  have top := UInt8.le_iff_toNat_le.1 letter.2
  rw [UInt8.toNat_ofNat_of_lt' byte] at top
  exact absurd top (Nat.not_le.2 (Nat.lt_of_lt_of_le (by decide) large))

theorem toLower_of_large {c : Char} (large : 0x80 ≤ c.toNat) : c.toLower = c := by
  refine dif_neg fun letter => ?_
  have top : c.toNat ≤ 0x5A := UInt32.le_iff_toNat_le.1 letter.2
  omega

/-- Only single bytes are letters, so case may be folded before or after encoding. -/
theorem map_lower_encodeChar (c : Char) :
    (String.utf8EncodeChar c).map lower = String.utf8EncodeChar c.toLower := by
  by_cases ascii : c.toNat < 0x80
  · rw [encodeChar_of_ascii ascii, List.map_singleton, lower_ofNat _ ascii, Char.ofNat_toNat]
  · have several : ¬ c.val.toNat ≤ 127 := fun few => ascii (Nat.lt_succ_of_le few)
    rw [toLower_of_large (Nat.le_of_not_lt ascii), String.utf8EncodeChar]
    simp only [if_neg several]
    split_ifs <;> simp (disch := omega) only [List.map_cons, List.map_nil, lower_of_large]

theorem map_lower_encode (text : List Char) :
    (encode text).map lower = encode (text.map Char.toLower) := by
  induction text with
  | nil => rfl
  | cons c text ih =>
    rw [encode_cons, List.map_append, map_lower_encodeChar, ih, List.map_cons, encode_cons]

/-! ### Blanks at the ends -/

section Strip

variable {α : Type} {p : α → Bool}

/-- A list without the items of a kind at its ends. -/
def strip (p : α → Bool) (xs : List α) : List α :=
  ((xs.dropWhile p).reverse.dropWhile p).reverse

theorem trim_eq_strip (text : List Char) : trim text = strip isBlank text := rfl

theorem exists_strip (p : α → Bool) (xs : List α) :
    ∃ front back, (∀ a ∈ front, p a) ∧ (∀ a ∈ back, p a) ∧ xs = front ++ strip p xs ++ back := by
  let rest := xs.dropWhile p
  have stripped : strip p xs ++ (rest.reverse.takeWhile p).reverse = rest := by
    rw [strip, ← List.reverse_append, List.takeWhile_append_dropWhile, List.reverse_reverse]
  refine ⟨xs.takeWhile p, (rest.reverse.takeWhile p).reverse, fun a ha => List.mem_takeWhile_imp ha,
    fun a ha => List.mem_takeWhile_imp (List.mem_reverse.1 ha), ?_⟩
  rw [List.append_assoc, stripped, List.takeWhile_append_dropWhile]

theorem dropWhile_of_none {xs : List α} (inner : ∀ a ∈ xs, ¬ p a) : xs.dropWhile p = xs := by
  cases xs with
  | nil => rfl
  | cons a xs => exact List.dropWhile_cons_of_neg (inner a List.mem_cons_self)

theorem strip_append {front core back : List α} (before : ∀ a ∈ front, p a)
    (after : ∀ a ∈ back, p a) (inner : ∀ a ∈ core, ¬ p a) :
    strip p (front ++ core ++ back) = core := by
  have last : ∀ a ∈ back.reverse, p a := fun a ha => after a (List.mem_reverse.1 ha)
  have inner_reverse : ∀ a ∈ core.reverse, ¬ p a := fun a ha => inner a (List.mem_reverse.1 ha)
  rw [strip, List.append_assoc, List.dropWhile_append_of_pos before]
  cases core with
  | nil => simp [List.dropWhile_eq_nil_iff.2 after]
  | cons a core =>
    rw [List.cons_append, List.dropWhile_cons_of_neg (inner a List.mem_cons_self),
      ← List.cons_append, List.reverse_append, List.dropWhile_append_of_pos last,
      dropWhile_of_none inner_reverse, List.reverse_reverse]

end Strip

theorem toLower_of_isBlank {c : Char} (blank : isBlank c) : c.toLower = c := by
  have no_letter : ∀ n ∈ blanks, n < 0x41 ∨ 0x5A < n := by decide
  have here := no_letter c.toNat (List.contains_iff_mem.1 blank)
  refine dif_neg fun letter => ?_
  have bottom : 0x41 ≤ c.toNat := UInt32.le_iff_toNat_le.1 letter.1
  have top : c.toNat ≤ 0x5A := UInt32.le_iff_toNat_le.1 letter.2
  omega

/-- The blanks of ASCII: tab, ends of lines and pages, and the space. -/
def asciiBlanks : List Nat := [0x09, 0x0A, 0x0C, 0x0D, 0x20]

def isAsciiBlank (c : Char) : Bool := asciiBlanks.contains c.toNat

def isAsciiBlankByte (b : UInt8) : Bool := asciiBlanks.contains b.toNat

/-- Bytes without the blanks of ASCII at their ends. -/
def trimAscii (bytes : List UInt8) : List UInt8 := strip isAsciiBlankByte bytes

theorem isBlank_of_isAsciiBlank {c : Char} (blank : isAsciiBlank c) : isBlank c := by
  have among : ∀ n ∈ asciiBlanks, n ∈ blanks := by decide
  exact List.contains_iff_mem.2 (among _ (List.contains_iff_mem.1 blank))

theorem lt_of_mem_asciiBlanks : ∀ n ∈ asciiBlanks, n < 0x80 := by decide

/-- Blanks of ASCII are the same as characters and as bytes. -/
theorem isAsciiBlankByte_of_mem_encode {text : List Char} (blank : ∀ c ∈ text, isAsciiBlank c) :
    ∀ b ∈ encode text, isAsciiBlankByte b := by
  intro b hb
  obtain ⟨c, hc, here⟩ := List.mem_flatMap.1 hb
  have ascii := lt_of_mem_asciiBlanks _ (List.contains_iff_mem.1 (blank c hc))
  rw [encodeChar_of_ascii ascii] at here
  rw [List.mem_singleton.1 here, isAsciiBlankByte,
    UInt8.toNat_ofNat_of_lt' (Nat.lt_trans ascii (by decide))]
  exact blank c hc

theorem isAsciiBlank_of_mem_singles {bytes : List UInt8} (blank : ∀ b ∈ bytes, isAsciiBlankByte b) :
    ∀ c ∈ singles bytes, isAsciiBlank c := by
  have kept : ∀ n ∈ asciiBlanks, isAsciiBlank (Char.ofNat n) := by decide
  intro c hc
  obtain ⟨b, hb, rfl⟩ := List.mem_map.1 hc
  exact kept _ (List.contains_iff_mem.1 (blank b hb))

theorem encode_singles_of_blank {bytes : List UInt8} (blank : ∀ b ∈ bytes, isAsciiBlankByte b) :
    encode (singles bytes) = bytes :=
  encode_singles fun b hb => lt_of_mem_asciiBlanks _ (List.contains_iff_mem.1 (blank b hb))

theorem lower_of_isAsciiBlankByte {b : UInt8} (blank : isAsciiBlankByte b) : lower b = b := by
  have kept : ∀ n ∈ asciiBlanks, lower (UInt8.ofNat n) = UInt8.ofNat n := by decide
  have here := kept _ (List.contains_iff_mem.1 blank)
  rwa [UInt8.ofNat_toNat] at here

end Name

namespace Registration

open Name (encode lower)

/-! ### Names between blanks -/

/-- The bytes are the name, up to the case of letters. -/
def Spells (r : Registration) (bytes : List UInt8) : Prop :=
  bytes.map lower = encode r.label.toList

instance (r : Registration) (bytes : List UInt8) : Decidable (r.Spells bytes) :=
  inferInstanceAs (Decidable (_ = _))

/-- Bytes that spell a name between blanks of some kind, written in UTF-8. -/
inductive Names (blank : Char → Bool) (r : Registration) : List UInt8 → Prop where
  | padded (front : List Char) (core : List UInt8) (back : List Char) :
    (∀ c ∈ front, blank c) → (∀ c ∈ back, blank c) → r.Spells core →
      Names blank r (encode front ++ core ++ encode back)

theorem map_toLower_label (r : Registration) : r.label.toList.map Char.toLower = r.label.toList := by
  cases r <;> simp [label]

theorem isNamed_iff (r : Registration) (text : List Char) :
    r.isNamed text ↔ text.map Char.toLower = r.label.toList := by
  rw [isNamed, Name.sameLetters, beq_iff_eq, map_toLower_label, eq_comm]

theorem isNamed_iff_spells (r : Registration) (text : List Char) :
    r.isNamed text ↔ r.Spells (encode text) := by
  rw [isNamed_iff, Spells, Name.map_lower_encode, Name.encode_injective.eq_iff]

/-- No text is the name of two registrations. -/
theorem eq_of_isNamed {r r' : Registration} {text : List Char} (h : r.isNamed text)
    (h' : r'.isNamed text) : r = r' := by
  have labels := ((r.isNamed_iff text).1 h).symm.trans ((r'.isNamed_iff text).1 h')
  cases r <;> cases r' <;> simp_all [label]

theorem find?_all_eq_some_iff (r : Registration) (text : List Char) :
    all.find? (·.isNamed text) = some r ↔ r.isNamed text := by
  have named_of_found : ∀ {r'}, all.find? (·.isNamed text) = some r' → r'.isNamed text :=
    fun found => List.find?_some (p := fun r : Registration => r.isNamed text) found
  refine ⟨named_of_found, fun named => ?_⟩
  cases found : all.find? (·.isNamed text) with
  | none => exact absurd named (List.find?_eq_none.1 found r (by cases r <;> decide))
  | some r' => rw [eq_of_isNamed (named_of_found found) named]

theorem mem_label_small (r : Registration) : ∀ c ∈ r.label.toList,
    c.toNat < 0x80 ∧ ¬ Name.isBlank c := by
  cases r <;> simp [label] <;> decide

/-- The characters of a name are no blanks. -/
theorem not_isBlank_of_isNamed {r : Registration} {text : List Char} (named : r.isNamed text) :
    ∀ c ∈ text, ¬ Name.isBlank c := by
  intro c hc blank
  have folded := List.mem_map_of_mem (f := Char.toLower) hc
  rw [(r.isNamed_iff text).1 named, Name.toLower_of_isBlank blank] at folded
  exact (r.mem_label_small c folded).2 blank

/-- The bytes of a name are the letters and the mark of its label, in either case. -/
theorem lower_mem_of_spells {r : Registration} {bytes : List UInt8} (h : r.Spells bytes) :
    ∀ b ∈ bytes, ∃ c ∈ r.label.toList, lower b = UInt8.ofNat c.toNat := by
  intro b hb
  have folded := List.mem_map_of_mem (f := lower) hb
  rw [h] at folded
  obtain ⟨c, hc, here⟩ := List.mem_flatMap.1 folded
  rw [Name.encodeChar_of_ascii (r.mem_label_small c hc).1] at here
  exact ⟨c, hc, List.mem_singleton.1 here⟩

theorem ascii_of_spells {r : Registration} {bytes : List UInt8} (h : r.Spells bytes) :
    ∀ b ∈ bytes, b.toNat < 0x80 := by
  intro b hb
  obtain ⟨c, hc, small⟩ := lower_mem_of_spells h b hb
  by_contra large
  have kept := Name.lower_of_large (Nat.le_of_not_lt large) b.toNat_lt
  rw [UInt8.ofNat_toNat, small] at kept
  have same := congrArg UInt8.toNat kept
  rw [UInt8.toNat_ofNat_of_lt' (Nat.lt_trans (r.mem_label_small c hc).1 (by decide))] at same
  exact large (same ▸ (r.mem_label_small c hc).1)

/-- The lookup finds a registration just if the bytes are its name, up to the case of letters, between
blanks. -/
theorem find?_eq_some_iff (r : Registration) (bytes : List UInt8) :
    find? bytes = some r ↔ Names Name.isBlank r bytes := by
  constructor
  · intro found
    obtain ⟨text, decoded, named⟩ := Option.bind_eq_some_iff.1 found
    rw [find?_all_eq_some_iff, isNamed_iff_spells, Name.trim_eq_strip] at named
    obtain ⟨front, back, before, after, split⟩ := Name.exists_strip Name.isBlank text
    rw [Name.decode?_eq_some_iff.1 decoded, split, Name.encode_append, Name.encode_append]
    exact .padded front _ back before after named
  · rintro ⟨front, core, back, before, after, spelled⟩
    have core_eq := Name.encode_singles (ascii_of_spells spelled)
    have named : r.isNamed (Name.singles core) := by
      rw [isNamed_iff_spells, core_eq]
      exact spelled
    have decoded : Name.decode? (encode front ++ core ++ encode back) =
        some (front ++ Name.singles core ++ back) := by
      rw [Name.decode?_eq_some_iff, Name.encode_append, Name.encode_append, core_eq]
    have trimmed : Name.trim (front ++ Name.singles core ++ back) = Name.singles core :=
      (Name.trim_eq_strip _).trans
        (Name.strip_append before after (not_isBlank_of_isNamed named))
    refine Option.bind_eq_some_iff.2 ⟨_, decoded, ?_⟩
    rw [trimmed]
    exact (find?_all_eq_some_iff r _).2 named

/-- No bytes name two registrations. -/
theorem Names.unique {r r' : Registration} {bytes : List UInt8} (h : Names Name.isBlank r bytes)
    (h' : Names Name.isBlank r' bytes) : r = r' := by
  have found := (r.find?_eq_some_iff bytes).2 h
  rw [(r'.find?_eq_some_iff bytes).2 h'] at found
  exact (Option.some.inj found).symm

theorem Names.of_spells {r : Registration} {blank : Char → Bool} {bytes : List UInt8}
    (h : r.Spells bytes) : Names blank r bytes := by
  have bare := @Names.padded blank r [] bytes [] nofun nofun h
  simpa [encode] using bare

theorem Names.of_ascii {r : Registration} {bytes : List UInt8}
    (h : Names Name.isAsciiBlank r bytes) : Names Name.isBlank r bytes := by
  obtain ⟨front, core, back, before, after, spelled⟩ := h
  exact .padded front core back (fun c hc => Name.isBlank_of_isAsciiBlank (before c hc))
    (fun c hc => Name.isBlank_of_isAsciiBlank (after c hc)) spelled

/-- Bytes with a name are the UTF-8 of some text. -/
theorem Names.isValidUTF8 {r : Registration} {blank : Char → Bool} {bytes : List UInt8}
    (h : Names blank r bytes) : bytes.toByteArray.IsValidUTF8 := by
  obtain ⟨front, core, back, before, after, spelled⟩ := h
  rw [← Name.encode_singles (ascii_of_spells spelled), ← Name.encode_append, ← Name.encode_append]
  exact ByteArray.isValidUTF8_utf8Encode

theorem not_isAsciiBlankByte_of_spells {r : Registration} {bytes : List UInt8}
    (h : r.Spells bytes) : ∀ b ∈ bytes, ¬ Name.isAsciiBlankByte b := by
  intro b hb blank
  obtain ⟨c, hc, small⟩ := lower_mem_of_spells h b hb
  obtain ⟨ascii, no_blank⟩ := r.mem_label_small c hc
  rw [Name.lower_of_isAsciiBlankByte blank] at small
  rw [small, Name.isAsciiBlankByte, UInt8.toNat_ofNat_of_lt' (Nat.lt_trans ascii (by decide))] at blank
  exact no_blank (Name.isBlank_of_isAsciiBlank blank)

/-- Taking only the blanks of ASCII off the ends leaves a name just if there are no other blanks
around it. -/
theorem spells_trimAscii_iff (r : Registration) (bytes : List UInt8) :
    r.Spells (Name.trimAscii bytes) ↔ Names Name.isAsciiBlank r bytes := by
  constructor
  · intro spelled
    obtain ⟨front, back, before, after, split⟩ := Name.exists_strip Name.isAsciiBlankByte bytes
    rw [split, ← Name.encode_singles_of_blank before, ← Name.encode_singles_of_blank after]
    exact .padded (Name.singles front) _ (Name.singles back)
      (Name.isAsciiBlank_of_mem_singles before) (Name.isAsciiBlank_of_mem_singles after) spelled
  · rintro ⟨front, core, back, before, after, spelled⟩
    rw [Name.trimAscii, Name.strip_append (Name.isAsciiBlankByte_of_mem_encode before)
      (Name.isAsciiBlankByte_of_mem_encode after) (not_isAsciiBlankByte_of_spells spelled)]
    exact spelled

end Registration

end LaneBoost
