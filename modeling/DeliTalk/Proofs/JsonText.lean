import DeliTalk.Document.Json
import DeliTalk.Document.Json.Writer
import Mathlib.Tactic.SplitIfs

/-!
# What is written as JSON is read back

A document without numbers whose maps name each field once is read back from its text, written
on one line with every character that needs no escape as it is. The reader is a recursive descent,
so there is one lemma for each of its functions, each with an arbitrary rest behind what it reads.

* `Doc.Wordy`: no numbers, and no field named twice.
* `Json.textBody_escape`: a text is read back character by character.
* `Json.value_write`: a value is read back in front of anything.
* `Json.read?_write`: a whole document is read back.
-/

namespace DeliTalk

variable {R : Type}

/-! ## 1. Documents of words -/

namespace Doc

mutual

/-- A document that holds no numbers and names no field twice. -/
def Wordy : Doc R → Prop
  | null | flag _ | text _ => True
  | int _ | num _ => False
  | list items => WordyItems items
  | map fields => (fields.map (·.1)).Nodup ∧ WordyFields fields

/-- Documents of words, one after the other. -/
def WordyItems : List (Doc R) → Prop
  | [] => True
  | d :: rest => Wordy d ∧ WordyItems rest

/-- Fields whose values are documents of words. -/
def WordyFields : List (String × Doc R) → Prop
  | [] => True
  | (_, d) :: rest => Wordy d ∧ WordyFields rest

end

end Doc

namespace Json

open Text Doc

/-! ## 2. Texts -/

/-- The number of a control character is read back. -/
theorem fourHex?_hex : ∀ n < 0x20, fourHex? '0' '0' (hexDigit (n / 16)) (hexDigit (n % 16)) =
    some n := by
  decide

theorem hex_four {n : Nat} (h : n < 0x20) :
    hex 4 n = ['0', '0', hexDigit (n / 16), hexDigit (n % 16)] := by
  have hsixteen : n / 16 % 16 = n / 16 := Nat.mod_eq_of_lt (by omega)
  have hzero : n / 16 / 16 = 0 := by omega
  simp only [hex, List.nil_append, List.cons_append, hzero, hsixteen]
  rfl

/-- A control character that has no letter of its own. -/
theorem textBody_numbered {c : Char} (hc : c.toNat < 0x20) (rest : List Char) :
    textBody (numberedEscape c ++ rest) = (textBody rest).map fun p => (c :: p.1, p.2) := by
  have hn : c.toNat < 0x10000 := by omega
  have hhigh : isHigh c.toNat = false := by
    simp only [isHigh, Bool.and_eq_false_iff, decide_eq_false_iff_not]
    omega
  have hlow : isLow c.toNat = false := by
    simp only [isLow, Bool.and_eq_false_iff, decide_eq_false_iff_not]
    omega
  unfold numberedEscape
  rw [if_pos hn, hex_four hc]
  simp only [List.cons_append, List.nil_append]
  rw [textBody, fourHex?_hex _ hc]
  simp [hhigh, hlow]

/-- A character that stands for itself. -/
theorem textBody_plain {c : Char} (hc : 0x20 ≤ c.toNat) (hquote : c ≠ '"') (hslash : c ≠ '\\')
    (rest : List Char) :
    textBody (c :: rest) = (textBody rest).map fun p => (c :: p.1, p.2) := by
  rw [textBody]
  · simp [hslash, Nat.not_lt.mpr hc]
  all_goals simp_all

/-- **One character** is read back. -/
theorem textBody_escape_cons (c : Char) (rest : List Char) :
    textBody (escape false c ++ rest) = (textBody rest).map fun p => (c :: p.1, p.2) := by
  unfold escape
  split_ifs with h1 h2 h3 h4 h5 h6 h7 h8 h9
  · subst h1
    simp [textBody, shortEscape?]
  · subst h2
    simp [textBody, shortEscape?]
  · subst h3
    simp [textBody, shortEscape?]
  · subst h4
    simp [textBody, shortEscape?]
  · subst h5
    simp [textBody, shortEscape?]
  · subst h6
    simp [textBody, shortEscape?]
  · subst h7
    simp [textBody, shortEscape?]
  · exact textBody_numbered h8 rest
  · simp at h9
  · exact textBody_plain (Nat.le_of_not_lt h8) h1 h2 rest

/-- **A text** is read back up to its closing quote. -/
theorem textBody_escape : ∀ (cs rest : List Char),
    textBody (cs.flatMap (escape false) ++ '"' :: rest) = some (cs, rest)
  | [], rest => by simp [textBody]
  | c :: cs, rest => by
    rw [List.flatMap_cons, List.append_assoc, textBody_escape_cons, textBody_escape cs rest]
    rfl

/-! ## 3. How a written value starts -/

/-- The layout on one line, with every character that needs no escape as it is. -/
structure Layout.Compact (layout : Layout R) : Prop where
  indent : layout.indent = none
  plain : layout.asciiOnly = false

namespace Layout.Compact

variable {layout : Layout R} (h : layout.Compact)

include h

theorem newline (level : Nat) : layout.newline level = [] := by rw [Layout.newline, h.indent]

theorem colon : layout.colon = [':'] := by simp [Layout.colon, h.indent]

end Layout.Compact

section Compact

variable [Scalar R] {layout : Layout R} (hc : layout.Compact)

omit [Scalar R] in
theorem skip_of_head {c : Char} (h : isGap c = false) (rest : List Char) :
    skip (c :: rest) = c :: rest := by
  simp [skip, h]

omit [Scalar R] in
/-- A value starts with a character that is no blank and closes nothing. -/
theorem write_head (layout : Layout R) (level : Nat) : ∀ {d : Doc R}, d.Wordy →
    ∃ c cs, write layout level d = c :: cs ∧ isGap c = false ∧ c ≠ ']'
  | .null, _ => ⟨_, _, by rw [write], by decide, by decide⟩
  | .flag true, _ => ⟨_, _, by rw [write], by decide, by decide⟩
  | .flag false, _ => ⟨_, _, by rw [write], by decide, by decide⟩
  | .text s, _ => ⟨_, _, by rw [write, writeText], by decide, by decide⟩
  | .list [], _ => ⟨_, _, by rw [write], by decide, by decide⟩
  | .list (d :: rest), _ => ⟨_, _, by rw [write], by decide, by decide⟩
  | .map [], _ => ⟨_, _, by rw [write], by decide, by decide⟩
  | .map ((key, d) :: rest), _ => ⟨_, _, by rw [write], by decide, by decide⟩

omit [Scalar R] in
/-- No blanks stand in front of a value. -/
theorem skip_write (layout : Layout R) (level : Nat) {d : Doc R} (h : d.Wordy)
    (rest : List Char) : skip (write layout level d ++ rest) = write layout level d ++ rest := by
  obtain ⟨c, cs, hw, hgap, -⟩ := write_head layout level h
  rw [hw]
  exact skip_of_head hgap _

/-! ## 4. Values -/

omit [Scalar R] in
theorem put_of_notMem {key : String} {d : Doc R} : ∀ {done : List (String × Doc R)},
    key ∉ done.map (·.1) → Register.put key d done = done ++ [(key, d)]
  | [], _ => rfl
  | (other, old) :: rest, h => by
    rw [List.map_cons, List.mem_cons, not_or] at h
    rw [Register.put, if_neg (Ne.symm h.1), put_of_notMem h.2]
    rfl

/-- A list that is not empty. -/
theorem value_list {fuel depth : Nat} {c : Char} {rest cs : List Char}
    (hskip : skip rest = c :: cs) (hclose : c ≠ ']') :
    value (R := R) (fuel + 1) (depth + 1) ('[' :: rest) =
      (items fuel depth (c :: cs)).map fun p => (.list p.1, p.2) := by
  rw [value.eq_def]
  simp only [hskip]
  split <;> simp_all

/-- A map that is not empty. -/
theorem value_map {fuel depth : Nat} {c : Char} {rest cs : List Char}
    (hskip : skip rest = c :: cs) (hclose : c ≠ '\x7d') :
    value (R := R) (fuel + 1) (depth + 1) ('\x7b' :: rest) =
      (fields fuel depth [] (c :: cs)).map fun p => (.map p.1, p.2) := by
  rw [value.eq_def]
  simp only [hskip]
  split <;> simp_all

include hc

mutual

/-- **A value is read back** in front of anything, if there is fuel for its characters. -/
theorem value_write : ∀ {d : Doc R} (fuel depth level : Nat) (rest : List Char),
    d.Wordy → d.depth ≤ depth → 2 * (write layout level d).length ≤ fuel →
    value fuel depth (write layout level d ++ rest) = some (d, rest)
  | d, 0, depth, level, rest, hd, _, hfuel => by
    obtain ⟨c, cs, hw, -, -⟩ := write_head layout level hd
    simp [hw] at hfuel
  | .null, fuel + 1, depth, level, rest, _, _, _ => by simp [write, value, after?]
  | .flag true, fuel + 1, depth, level, rest, _, _, _ => by simp [write, value, after?]
  | .flag false, fuel + 1, depth, level, rest, _, _, _ => by simp [write, value, after?]
  | .int n, _, _, _, _, hd, _, _ => by simp [Wordy] at hd
  | .num x, _, _, _, _, hd, _, _ => by simp [Wordy] at hd
  | .text s, fuel + 1, depth, level, rest, _, _, _ => by
    simp [write, writeText, hc.plain, value, textBody_escape]
  | .list [], fuel + 1, depth, level, rest, _, _, _ => by
    simp [write, value, skip_of_head (c := ']') (by decide)]
  | .map [], fuel + 1, depth, level, rest, _, _, _ => by
    simp [write, value, skip_of_head (c := '\x7d') (by decide)]
  | .list (d :: more), fuel + 1, depth, level, rest, hd, hdepth, hfuel => by
    simp only [Wordy, WordyItems] at hd
    simp only [Doc.depth] at hdepth
    cases depth with
    | zero => omega
    | succ depth =>
      simp only [write, hc.newline, List.nil_append, List.append_nil, List.cons_append,
        List.append_assoc, List.length_cons, List.length_append, List.length_nil] at hfuel ⊢
      have hitems := items_write fuel depth (level + 1) rest hd.1 hd.2 (by omega) (by omega)
        (by simp only [List.length_append]; omega)
      obtain ⟨c, cs, hw, hgap, hclose⟩ := write_head layout (level + 1) hd.1
      rw [hw, List.cons_append] at hitems ⊢
      rw [value_list (skip_of_head hgap _) hclose, hitems]
      rfl
  | .map ((key, d) :: more), fuel + 1, depth, level, rest, hd, hdepth, hfuel => by
    simp only [Wordy, WordyFields, List.map_cons] at hd
    simp only [Doc.depth] at hdepth
    cases depth with
    | zero => omega
    | succ depth =>
      simp only [write, hc.newline, hc.colon, hc.plain, List.nil_append, List.append_nil,
        List.cons_append, List.append_assoc, List.length_cons, List.length_append,
        List.length_nil] at hfuel ⊢
      have hfields := fields_write key [] fuel depth (level + 1) rest hd.2.1 hd.2.2 hd.1
        (by omega) (by omega) (by simp only [List.length_append, List.length_cons]; omega)
      rw [writeText, List.cons_append] at hfields ⊢
      rw [value_map (skip_of_head (by decide) _) (by decide), hfields]
      rfl
termination_by _ fuel => fuel

/-- The further values of a list are read back up to the closing bracket. -/
theorem items_write : ∀ {d : Doc R} {more : List (Doc R)} (fuel depth level : Nat)
    (rest : List Char), d.Wordy → WordyItems more → d.depth ≤ depth →
    depthOfItems more ≤ depth →
    2 * (write layout level d ++ writeItems layout level more).length + 1 ≤ fuel →
    items fuel depth (write layout level d ++ (writeItems layout level more ++ ']' :: rest)) =
      some (d :: more, rest)
  | d, more, 0, depth, level, rest, hd, hmore, hdepth, hdepths, hfuel => by omega
  | d, [], fuel + 1, depth, level, rest, hd, hmore, hdepth, hdepths, hfuel => by
    simp only [writeItems, List.nil_append, List.append_nil] at hfuel ⊢
    rw [items, value_write fuel depth level _ hd hdepth (by omega)]
    simp only [skip_of_head (c := ']') (by decide)]
  | d, e :: more, fuel + 1, depth, level, rest, hd, hmore, hdepth, hdepths, hfuel => by
    simp only [WordyItems] at hmore
    simp only [depthOfItems] at hdepths
    simp only [writeItems, hc.newline, List.nil_append, List.cons_append, List.append_assoc,
      List.length_append, List.length_cons] at hfuel ⊢
    rw [items, value_write fuel depth level _ hd hdepth (by omega)]
    simp only [skip_of_head (c := ',') (by decide), skip_write layout level hmore.1]
    rw [items_write fuel depth level rest hmore.1 hmore.2 (by omega) (by omega)
      (by simp only [List.length_append]; omega)]
    rfl
termination_by _ _ fuel => fuel

/-- The further fields of a map are read back up to the closing brace. -/
theorem fields_write : ∀ (key : String) {d : Doc R} {more : List (String × Doc R)}
    (done : List (String × Doc R)) (fuel depth level : Nat) (rest : List Char),
    d.Wordy → WordyFields more →
    ((done ++ (key, d) :: more).map (·.1)).Nodup → d.depth ≤ depth →
    depthOfFields more ≤ depth →
    2 * (writeText false key ++ ':' :: write layout level d ++
      writeFields layout level more).length + 1 ≤ fuel →
    fields fuel depth done (writeText false key ++ ':' :: (write layout level d ++
      (writeFields layout level more ++ '\x7d' :: rest))) =
        some (done ++ (key, d) :: more, rest)
  | key, d, more, done, 0, depth, level, rest, hd, hmore, hnodup, hdepth, hdepths, hfuel => by
    omega
  | key, d, [], done, fuel + 1, depth, level, rest, hd, hmore, hnodup, hdepth, hdepths,
    hfuel => by
    have hkey : key ∉ done.map (·.1) := by
      intro hm
      rw [List.map_append, List.nodup_append] at hnodup
      exact hnodup.2.2 key hm key (by simp) rfl
    simp only [writeFields, writeText, List.nil_append, List.append_nil, List.cons_append,
      List.append_assoc, List.length_append, List.length_cons] at hfuel ⊢
    rw [fields, textBody_escape]
    simp only [skip_of_head (c := ':') (by decide), skip_write layout level hd]
    rw [value_write fuel depth level _ hd hdepth (by omega)]
    simp only [skip_of_head (c := '\x7d') (by decide), String.ofList_toList, put_of_notMem hkey]
  | key, d, (other, e) :: more, done, fuel + 1, depth, level, rest, hd, hmore, hnodup, hdepth,
    hdepths, hfuel => by
    have hkey : key ∉ done.map (·.1) := by
      intro hm
      rw [List.map_append, List.nodup_append] at hnodup
      exact hnodup.2.2 key hm key (by simp) rfl
    simp only [WordyFields] at hmore
    simp only [depthOfFields] at hdepths
    have hfields := fields_write other (done ++ [(key, d)]) fuel depth level rest hmore.1 hmore.2
      (by simpa using hnodup) (by omega) (by omega)
    simp only [writeFields, writeText, hc.newline, hc.colon, hc.plain, List.nil_append,
      List.cons_append, List.append_assoc, List.length_append, List.length_cons] at hfuel hfields ⊢
    rw [fields, textBody_escape]
    simp only [skip_of_head (c := ':') (by decide), skip_write layout level hd]
    rw [value_write fuel depth level _ hd hdepth (by omega)]
    simp only [skip_of_head (c := ',') (by decide), String.ofList_toList, put_of_notMem hkey]
    rw [skip_of_head (by decide), hfields (by omega)]
termination_by _ _ _ _ fuel => fuel

end

/-- **A whole document is read back** from its text, if it is nested no deeper than the limit. -/
theorem read?_write {limit : Nat} {d : Doc R} (h : d.Wordy) (hdepth : d.depth ≤ limit) :
    read? limit (write layout 0 d) = some d := by
  have hvalue := value_write hc (2 * (write layout 0 d).length + 2) limit 0 [] h hdepth (by omega)
  have hskip := skip_write layout 0 h []
  rw [List.append_nil] at hvalue hskip
  simp only [read?, hskip, hvalue]
  rfl

end Compact

end Json

end DeliTalk
