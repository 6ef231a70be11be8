import DeliTalk.Proofs.Frames
import DeliTalk.Proofs.Reals

/-!
# What fits into a frame, and what comes back

A frame is refused only if the text of the message has more bytes than the frame, and then no
matter what the message is. What is framed is read back, field by field, with any zeros behind it,
as long as the trees in it are not too high: the reader follows values only so far down, and a tree
takes two steps for each of its nodes on the way.

* `Json.value_deep`: a value nested more deeply than the limit is refused, wherever it stands.
* `Json.read?_deep`: so is a whole document.
* `Frame.framed_comesBack`: which messages have a frame, and which come back from it.
-/

namespace DeliTalk

open Doc

variable {R : Type} [Scalar R]

/-! ## 1. What is nested too deeply -/

namespace Json

open Text

/-- At the limit no list is entered. -/
theorem value_list_zero {fuel : Nat} {c : Char} {rest cs : List Char}
    (hskip : skip rest = c :: cs) (hclose : c ≠ ']') :
    value (R := R) (fuel + 1) 0 ('[' :: rest) = none := by
  rw [value.eq_def]
  simp only [hskip]
  split <;> simp_all

/-- At the limit no map is entered. -/
theorem value_map_zero {fuel : Nat} {c : Char} {rest cs : List Char}
    (hskip : skip rest = c :: cs) (hclose : c ≠ '\x7d') :
    value (R := R) (fuel + 1) 0 ('\x7b' :: rest) = none := by
  rw [value.eq_def]
  simp only [hskip]
  split <;> simp_all

section Compact

variable {layout : Layout R} (hc : layout.Compact)

include hc

mutual

/-- **A value nested too deeply is refused**: what stands before the place where it goes too deep is
read, if there is fuel for it, and then the reader gives up. -/
theorem value_deep : ∀ {d : Doc R} (fuel depth level : Nat) (rest : List Char),
    d.Wordy → depth < d.depth → 2 * (write layout level d).length ≤ fuel →
    value (R := R) fuel depth (write layout level d ++ rest) = none
  | _, 0, _, _, _, _, _, _ => rfl
  | .null, _, _, _, _, _, hdeep, _ => by simp [Doc.depth] at hdeep
  | .flag _, _, _, _, _, _, hdeep, _ => by simp [Doc.depth] at hdeep
  | .int _, _, _, _, _, _, hdeep, _ => by simp [Doc.depth] at hdeep
  | .num _, _, _, _, _, _, hdeep, _ => by simp [Doc.depth] at hdeep
  | .text _, _, _, _, _, _, hdeep, _ => by simp [Doc.depth] at hdeep
  | .list [], _, _, _, _, _, hdeep, _ => by simp [Doc.depth] at hdeep
  | .map [], _, _, _, _, _, hdeep, _ => by simp [Doc.depth] at hdeep
  | .list (d :: more), fuel + 1, depth, level, rest, hd, hdeep, hfuel => by
    simp only [Wordy, WordyItems] at hd
    simp only [Doc.depth] at hdeep
    simp only [write, hc.newline, List.nil_append, List.append_nil, List.cons_append,
      List.append_assoc, List.length_cons, List.length_append, List.length_nil] at hfuel ⊢
    obtain ⟨c, cs, hw, hgap, hclose⟩ := write_head layout (level + 1) hd.1
    cases depth with
    | zero =>
      rw [hw, List.cons_append]
      exact value_list_zero (skip_of_head hgap _) hclose
    | succ depth =>
      have hitems := items_deep fuel depth (level + 1) rest hd.1 hd.2 (by omega)
        (by simp only [List.length_append]; omega)
      rw [hw, List.cons_append] at hitems ⊢
      rw [value_list (skip_of_head hgap _) hclose, hitems]
      rfl
  | .map ((key, d) :: more), fuel + 1, depth, level, rest, hd, hdeep, hfuel => by
    simp only [Wordy, WordyFields, List.map_cons] at hd
    simp only [Doc.depth] at hdeep
    simp only [write, hc.newline, hc.colon, hc.plain, List.nil_append, List.append_nil,
      List.cons_append, List.append_assoc, List.length_cons, List.length_append,
      List.length_nil] at hfuel ⊢
    cases depth with
    | zero =>
      rw [writeText, List.cons_append]
      exact value_map_zero (skip_of_head (by decide) _) (by decide)
    | succ depth =>
      have hfields := fields_deep key [] fuel depth (level + 1) rest hd.2.1 hd.2.2 (by omega)
        (by simp only [List.length_append, List.length_cons]; omega)
      rw [writeText, List.cons_append] at hfields ⊢
      rw [value_map (skip_of_head (by decide) _) (by decide), hfields]
      rfl
termination_by _ fuel => fuel

/-- A list with an item nested too deeply is refused, at the latest at that item. -/
theorem items_deep : ∀ {d : Doc R} {more : List (Doc R)} (fuel depth level : Nat)
    (rest : List Char), d.Wordy → WordyItems more → depth < max d.depth (depthOfItems more) →
    2 * (write layout level d ++ writeItems layout level more).length + 1 ≤ fuel →
    items (R := R) fuel depth
      (write layout level d ++ (writeItems layout level more ++ ']' :: rest)) = none
  | _, _, 0, _, _, _, _, _, _, _ => rfl
  | d, more, fuel + 1, depth, level, rest, hd, hmore, hdeep, hfuel => by
    simp only [List.length_append] at hfuel
    by_cases hfirst : depth < d.depth
    · rw [items, value_deep fuel depth level _ hd hfirst (by omega)]
    · have hdepth : d.depth ≤ depth := Nat.le_of_not_lt hfirst
      cases more with
      | nil =>
        simp only [depthOfItems] at hdeep
        omega
      | cons e more =>
        simp only [WordyItems] at hmore
        simp only [depthOfItems] at hdeep
        simp only [writeItems, hc.newline, List.nil_append, List.cons_append, List.append_assoc,
          List.length_append, List.length_cons] at hfuel ⊢
        rw [items, value_write hc fuel depth level _ hd hdepth (by omega)]
        simp only [skip_of_head (c := ',') (by decide), skip_write layout level hmore.1]
        rw [items_deep fuel depth level rest hmore.1 hmore.2 (by omega)
          (by simp only [List.length_append]; omega)]
        rfl
termination_by _ _ fuel => fuel

/-- A map with a field nested too deeply is refused, at the latest at that field. -/
theorem fields_deep : ∀ (key : String) {d : Doc R} {more : List (String × Doc R)}
    (done : List (String × Doc R)) (fuel depth level : Nat) (rest : List Char),
    d.Wordy → WordyFields more → depth < max d.depth (depthOfFields more) →
    2 * (writeText false key ++ ':' :: write layout level d ++
      writeFields layout level more).length + 1 ≤ fuel →
    fields (R := R) fuel depth done (writeText false key ++ ':' :: (write layout level d ++
      (writeFields layout level more ++ '\x7d' :: rest))) = none
  | _, _, _, _, 0, _, _, _, _, _, _, _ => rfl
  | key, d, more, done, fuel + 1, depth, level, rest, hd, hmore, hdeep, hfuel => by
    simp only [writeText, List.cons_append, List.append_assoc, List.length_append,
      List.length_cons] at hfuel ⊢
    rw [fields, textBody_escape]
    simp only [List.nil_append, skip_of_head (c := ':') (by decide), skip_write layout level hd]
    by_cases hfirst : depth < d.depth
    · rw [value_deep fuel depth level _ hd hfirst (by omega)]
    · have hdepth : d.depth ≤ depth := Nat.le_of_not_lt hfirst
      rw [value_write hc fuel depth level _ hd hdepth (by omega)]
      cases more with
      | nil =>
        simp only [depthOfFields] at hdeep
        omega
      | cons p more =>
        obtain ⟨other, e⟩ := p
        simp only [WordyFields] at hmore
        simp only [depthOfFields] at hdeep
        have hfields := fields_deep other (Register.put (String.ofList key.toList) d done) fuel
          depth level rest hmore.1 hmore.2 (by omega)
        simp only [writeFields, writeText, hc.newline, hc.colon, hc.plain, List.nil_append,
          List.cons_append, List.append_assoc, List.length_append, List.length_cons]
          at hfuel hfields ⊢
        simp only [skip_of_head (c := ',') (by decide)]
        rw [skip_of_head (by decide), hfields (by omega)]
termination_by _ _ _ _ fuel => fuel

end

/-- **A document nested too deeply is refused.** -/
theorem read?_deep {limit : Nat} {d : Doc R} (h : d.Wordy) (hdeep : limit < d.depth) :
    read? (R := R) limit (write layout 0 d) = none := by
  have hvalue := value_deep hc (2 * (write layout 0 d).length + 2) limit 0 [] h hdeep (by omega)
  have hskip := skip_write layout 0 h []
  rw [List.append_nil] at hvalue hskip
  simp only [read?, hskip, hvalue]
  rfl

end Compact

end Json

/-! ## 2. What has a frame, and what comes back -/

namespace Frame

variable {m : Message} {size : Int}

omit [Scalar R] in
/-- **A message whose text fits has a frame** of the given size, if there are frames of that size. -/
theorem encode_fits (hfits : ((bytesOf (body R m)).length : Int) ≤ size)
    (hsize : size < sizeBound) :
    ∃ frame, encode R size m = .ok frame ∧ (frame.length : Int) = size := by
  unfold encode
  simp only
  rw [if_neg (by omega), if_neg (by omega)]
  refine ⟨_, rfl, ?_⟩
  rw [List.length_append, List.length_replicate]
  omega

omit [Scalar R] in
/-- **A message whose text does not fit is refused**, with both sizes. -/
theorem encode_tooLarge (h : size < (bytesOf (body R m)).length) :
    encode R size m = .error (.line (.tooLarge (bytesOf (body R m)).length size)) := by
  unfold encode
  exact if_pos h

/-- **The text of a message with a tree that is too high is refused**, whatever zeros stand behind
it. -/
theorem decode_high (h : ¬ m.Shallow) (k : Nat) :
    decode R (bytesOf (body R m) ++ List.replicate k 0) =
      .error (.malformed [⟨[], .malformed⟩]) := by
  have hcompact : (layout R).Compact := ⟨rfl, rfl⟩
  have hdeep : depthLimit < (m.toDoc : Doc R).withoutNulls.depth :=
    Nat.lt_of_not_le fun hle => h (Message.depth_withoutNulls.mp hle)
  have hread : Json.read? (R := R) depthLimit (body R m) = none :=
    Json.read?_deep hcompact (Message.wordy_withoutNulls m) hdeep
  rw [decode_padded, hread]

/-- **What fits into a frame comes back from it.** A shallow message has a frame of the given size
exactly if its text has no more bytes, and is refused for its size otherwise. The frame gives back
the very same message, with any zeros behind it. Messages that are not shallow do not come back. -/
theorem framed_comesBack (m : Message) (hsize : size < sizeBound) :
    let text := bytesOf (body R m)
    (m.Shallow →
      ((text.length : Int) ≤ size → ∃ frame, encode R size m = .ok frame ∧
        (frame.length : Int) = size ∧ ∀ k, decode R (frame ++ List.replicate k 0) = .ok m) ∧
      (size < text.length → encode R size m = .error (.line (.tooLarge text.length size)))) ∧
    (¬ m.Shallow → ∀ k, decode R (text ++ List.replicate k 0) =
      .error (.malformed [⟨[], .malformed⟩])) := by
  intro text
  refine ⟨fun h => ⟨fun hfits => ?_, encode_tooLarge⟩, decode_high⟩
  obtain ⟨frame, hframe, hlength⟩ := encode_fits hfits hsize
  refine ⟨frame, hframe, hlength, fun k => ?_⟩
  rw [(encode_spec hframe).2, List.append_assoc, List.replicate_append_replicate]
  exact decode_shallow h _

namespace House

/-- A leaf of lettuce. -/
def lettuce : Ingredient := ⟨"lettuce", "ta", none⟩

/-- So many categories above a leaf of lettuce. -/
def tower : Nat → Ingredient
  | 0 => lettuce
  | n + 1 => ⟨"lettuce", "ta", some [tower n]⟩

theorem height_tower : ∀ n, (tower n).height = n + 1
  | 0 => rfl
  | n + 1 => by
    simp only [tower, Ingredient.height, Ingredient.heights, height_tower n]
    omega

/-- A sandwich with a tower on it. -/
def towering (n : Nat) : Message := ⟨some "lo", some { ingredients := [tower n] }⟩

theorem shallow_towering (n : Nat) : (towering n).Shallow ↔ n < Message.heightLimit := by
  have hheight : Ingredient.heights [tower n] = n + 1 := by
    simp only [Ingredient.heights, height_tower]
    omega
  refine ⟨fun h => ?_, fun h s hs => ?_⟩
  · have hle := (h _ rfl).1
    rw [hheight] at hle
    omega
  · cases hs
    exact ⟨by rw [hheight]; omega, Nat.zero_le _⟩

/-- A sandwich with a single leaf comes back from a frame of 4096 bytes; with a tower of a hundred
nodes it does not come back. -/
theorem comesBack_lettuce : (4096 : Int) < sizeBound ∧ (towering 0).Shallow ∧
    (∃ frame, encode ℝ 4096 (towering 0) = .ok frame ∧ (frame.length : Int) = 4096 ∧
      decode ℝ (frame ++ List.replicate 3 0) = .ok (towering 0)) ∧
    ¬ (towering 99).Shallow ∧
    decode ℝ (bytesOf (body ℝ (towering 99)) ++ List.replicate 3 0) =
      .error (.malformed [⟨[], .malformed⟩]) := by
  have hsize : (4096 : Int) < sizeBound := by decide
  have hlow : (towering 0).Shallow := (shallow_towering 0).mpr (by decide)
  have hhigh : ¬ (towering 99).Shallow := fun h => absurd ((shallow_towering 99).mp h) (by decide)
  have hfits : ((bytesOf (body ℝ (towering 0))).length : Int) ≤ 4096 := by
    have hchars : (body ℝ (towering 0)).length = 138 := by rfl
    have hbytes := length_bytesOf_le (body ℝ (towering 0))
    omega
  obtain ⟨frame, hframe, hlength, hback⟩ :=
    ((framed_comesBack (R := ℝ) (towering 0) hsize).1 hlow).1 hfits
  exact ⟨hsize, hlow, ⟨frame, hframe, hlength, hback 3⟩, hhigh,
    (framed_comesBack (towering 99) hsize).2 hhigh 3⟩

/-- A tower of a hundred nodes is lost on the way, however large the frame; and there are no frames
from some size on. -/
theorem tower_lost :
    (¬ ∃ frame, encode ℝ (bytesOf (body ℝ (towering 99))).length (towering 99) = .ok frame ∧
      decode ℝ frame = .ok (towering 99)) ∧
    encode ℝ sizeBound {} = .error .oversized := by
  refine ⟨fun h => ?_, ?_⟩
  · obtain ⟨frame, hframe, hback⟩ := h
    have hhigh : ¬ (towering 99).Shallow := fun h =>
      absurd ((shallow_towering 99).mp h) (by decide)
    rw [(encode_spec hframe).2, decode_high hhigh] at hback
    cases hback
  · have hchars : (body ℝ {}).length = 2 := by rfl
    have hbytes := length_bytesOf_le (body ℝ {})
    have hbound : (8 : Int) < sizeBound := by decide
    unfold encode
    simp only
    rw [if_neg (by omega), if_pos (Int.le_refl _)]

end House

end Frame

end DeliTalk
