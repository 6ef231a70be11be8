import DeliTalk.Message.Frame
import DeliTalk.Proofs.JsonText

/-!
# What is framed is read back

The bytes of a frame without the zeros at its end are the text of the message, since that text
ends in a brace. Its document holds words only, so it is read back, and the message is read from
it field by field, absent parts included.

* `Ingredient.ofDoc_withoutNulls`, `Sandwich.ofDoc_withoutNulls`, `Message.ofDoc_withoutNulls`:
  what was written without its absent parts is read back.
* `Message.Shallow`: a sandwich of trees that are not too high.
* `Frame.decode_encode`: a frame gives its message back.
-/

namespace DeliTalk

variable {R : Type}

/-! ## 1. Bytes -/

namespace Frame

theorem toList_loop (bs : ByteArray) (i : Nat) (r : List UInt8) :
    ByteArray.toList.loop bs i r = r.reverse ++ bs.data.toList.drop i := by
  rw [ByteArray.toList.loop]
  split
  · rename_i h
    have hi : i < bs.data.toList.length := by simpa using h
    have hget : bs.get! i = bs.data.toList[i] := by
      rw [ByteArray.get!, getElem!_pos bs.data i (by simpa using h)]
      simp
    rw [toList_loop bs (i + 1), hget, List.reverse_cons, List.append_assoc,
      List.drop_eq_getElem_cons hi]
    rfl
  · rename_i h
    rw [List.drop_of_length_le (by simpa using h), List.append_nil]
termination_by bs.size - i

/-- The bytes of a text, as the characters' codes one after the other. -/
theorem bytesOf_eq (cs : List Char) : bytesOf cs = cs.utf8Encode.data.toList := by
  unfold bytesOf
  rw [String.toUTF8_eq_toByteArray, String.toByteArray_ofList, ByteArray.toList, toList_loop]
  rfl

theorem bytesOf_append (cs ds : List Char) : bytesOf (cs ++ ds) = bytesOf cs ++ bytesOf ds := by
  simp only [bytesOf_eq, List.utf8Encode_append, ByteArray.toList_data_append]

/-- A character takes four bytes at most. -/
theorem length_bytesOf_le : ∀ cs : List Char, (bytesOf cs).length ≤ 4 * cs.length
  | [] => by
    rw [bytesOf_eq]
    exact Nat.le_refl 0
  | c :: cs => by
    have ih := length_bytesOf_le cs
    have hc : (bytesOf [c]).length ≤ 4 := by
      rw [bytesOf_eq, List.utf8Encode_singleton, List.data_toByteArray,
        String.length_utf8EncodeChar]
      exact Char.utf8Size_le_four c
    rw [← List.singleton_append, bytesOf_append, List.length_append, List.length_append,
      List.length_singleton]
    omega

/-- **The bytes of a text are read as the text.** -/
theorem textOf?_bytesOf (cs : List Char) : textOf? (bytesOf cs) = some (String.ofList cs) := by
  unfold textOf?
  rw [bytesOf_eq, Array.toArray_toList, String.fromUTF8?,
    dif_pos ByteArray.isValidUTF8_utf8Encode]
  rfl

/-- The zeros behind something that ends in no zero are taken off. -/
theorem trimmed_append {bytes : List UInt8} {b : UInt8} (hb : b ≠ 0) (k : Nat) :
    trimmed (bytes ++ [b] ++ List.replicate k 0) = bytes ++ [b] := by
  have hzeros : ∀ n, (List.replicate n (0 : UInt8) ++ b :: bytes.reverse).dropWhile (· == 0) =
      b :: bytes.reverse := by
    intro n
    induction n with
    | zero => simp [hb]
    | succ n ih =>
      rw [List.replicate_succ, List.cons_append, List.dropWhile_cons]
      simp only [beq_self_eq_true, if_true]
      exact ih
  unfold trimmed
  rw [List.reverse_append, List.reverse_replicate, List.reverse_append, List.reverse_singleton,
    List.singleton_append, hzeros, List.reverse_cons, List.reverse_reverse]

end Frame

/-! ## 2. Messages without their absent parts -/

namespace Doc

theorem withoutNullsItems_eq_map : ∀ ds : List (Doc R),
    withoutNullsItems ds = ds.map withoutNulls
  | [] => rfl
  | d :: rest => by rw [withoutNullsItems, List.map_cons, withoutNullsItems_eq_map rest]

/-- The items of a list are read back if each of them is. -/
theorem readItems_map {α : Type} {read : Doc R → Check α} {write : α → Doc R} :
    ∀ (k : Nat) (xs : List α), (∀ x ∈ xs, read (write x) = .sound x) →
      readItems read k (xs.map write) = .sound xs
  | _, [], _ => rfl
  | k, x :: rest, h => by
    have hrest := readItems_map (k + 1) rest fun y hy => h y (List.mem_cons_of_mem x hy)
    simp [readItems, h x List.mem_cons_self, hrest]

end Doc

open Doc

namespace Ingredient

mutual

theorem wordy_withoutNulls : ∀ i : Ingredient, (i.toDoc : Doc R).withoutNulls.Wordy
  | ⟨name, morpheme, none⟩ => by
    simp [toDoc, withoutNulls, withoutNullsFields, isNull, Wordy, WordyFields]
  | ⟨name, morpheme, some cs⟩ => by
    have h := wordy_withoutNullsItems cs
    simp [toDoc, withoutNulls, withoutNullsFields, isNull, Wordy, WordyFields, h]

theorem wordy_withoutNullsItems : ∀ is : List Ingredient,
    WordyItems (withoutNullsItems (toDocs is : List (Doc R)))
  | [] => by simp [toDocs, withoutNullsItems, WordyItems]
  | i :: rest => by
    simp only [toDocs, withoutNullsItems, WordyItems]
    exact ⟨wordy_withoutNulls i, wordy_withoutNullsItems rest⟩

end

mutual

/-- A tree is nested twice as deeply as it is high, but for its leaves. -/
theorem depth_withoutNulls : ∀ i : Ingredient,
    (i.toDoc : Doc R).withoutNulls.depth + 1 = 2 * i.height
  | ⟨name, morpheme, none⟩ => by
    simp [toDoc, withoutNulls, withoutNullsFields, isNull, Doc.depth, depthOfFields, height]
  | ⟨name, morpheme, some []⟩ => by
    simp [toDoc, toDocs, withoutNulls, withoutNullsFields, withoutNullsItems, isNull, Doc.depth,
      depthOfFields, height, heights]
  | ⟨name, morpheme, some (c :: cs)⟩ => by
    have hc := depth_withoutNulls c
    have hcs := depth_withoutNullsItems cs
    simp only [toDoc, toDocs, withoutNulls, withoutNullsFields, withoutNullsItems, isNull,
      Doc.depth, depthOfFields, height, heights, Bool.false_eq_true, if_false]
    omega

theorem depth_withoutNullsItems : ∀ is : List Ingredient,
    depthOfItems (withoutNullsItems (toDocs is : List (Doc R))) = 2 * heights is - 1
  | [] => by simp [toDocs, withoutNullsItems, depthOfItems, heights]
  | i :: rest => by
    have hi := depth_withoutNulls i
    have hrest := depth_withoutNullsItems rest
    simp only [toDocs, withoutNullsItems, depthOfItems, heights]
    omega

end

/-- A list of trees is nested twice as deeply as they are high. -/
theorem depth_withoutNullsList : ∀ is : List Ingredient,
    (Doc.list (withoutNullsItems (toDocs is : List (Doc R)))).depth = 2 * heights is
  | [] => by simp [toDocs, withoutNullsItems, Doc.depth, heights]
  | i :: rest => by
    have hi := depth_withoutNulls (R := R) i
    have hrest := depth_withoutNullsItems (R := R) rest
    simp only [toDocs, withoutNullsItems, Doc.depth, heights]
    omega

theorem toDocs_eq_map : ∀ cs : List Ingredient, (toDocs cs : List (Doc R)) = cs.map toDoc
  | [] => rfl
  | c :: rest => by rw [toDocs, List.map_cons, toDocs_eq_map rest]

/-- Several ingredients are read back if each of them is. -/
theorem readItems_withoutNulls {read : Doc R → Check Ingredient} {cs : List Ingredient}
    (h : ∀ c ∈ cs, read c.toDoc.withoutNulls = .sound c) :
    readItems read 0 (withoutNullsItems (toDocs cs)) = .sound cs := by
  rw [toDocs_eq_map, withoutNullsItems_eq_map, List.map_map]
  exact readItems_map 0 cs h

/-- **An ingredient is read back** although an absent list of children is left out. -/
theorem ofDoc_withoutNulls : ∀ (room : Nat) (i : Ingredient), i.height ≤ room →
    ofDoc room (i.toDoc : Doc R).withoutNulls = .sound i
  | 0, ⟨_, _, none⟩, h => by simp [height] at h
  | 0, ⟨_, _, some _⟩, h => by simp [height] at h
  | room + 1, ⟨name, morpheme, none⟩, _ => by
    simp [toDoc, withoutNulls, withoutNullsFields, isNull, ofDoc, asRecord, field, fieldOr,
      Register.find?, asText]
  | room + 1, ⟨name, morpheme, some cs⟩, h => by
    have hcs : readItems (ofDoc (R := R) room) 0 (withoutNullsItems (toDocs cs)) = .sound cs :=
      readItems_withoutNulls fun c hc => ofDoc_withoutNulls room c (by
        have := height_le_heights hc
        simp only [height] at h
        omega)
    simp [toDoc, withoutNulls, withoutNullsFields, isNull, ofDoc, asRecord, field, fieldOr,
      Register.find?, asText, asOptional, asListOf, hcs]

/-- Several ingredients are read back if all of them fit into the room. -/
theorem asListOf_withoutNulls {room : Nat} {cs : List Ingredient} (h : heights cs ≤ room) :
    asListOf (ofDoc (R := R) room) (.list (withoutNullsItems (toDocs cs))) = .sound cs :=
  readItems_withoutNulls fun c hc =>
    ofDoc_withoutNulls room c (Nat.le_trans (height_le_heights hc) h)

end Ingredient

namespace Sandwich

/-- The trees of a sandwich are nested in two more lists and maps, and its own. -/
theorem depth_withoutNulls (s : Sandwich) : (s.toDoc : Doc R).withoutNulls.depth =
    2 * max (Ingredient.heights s.ingredients) (Ingredient.heights s.ensured) + 1 := by
  have hi := Ingredient.depth_withoutNullsList (R := R) s.ingredients
  have he := Ingredient.depth_withoutNullsList (R := R) s.ensured
  have hmap : (s.toDoc : Doc R).withoutNulls.depth =
      max (Doc.list (withoutNullsItems (Ingredient.toDocs s.ingredients : List (Doc R)))).depth
        (Doc.list (withoutNullsItems (Ingredient.toDocs s.ensured : List (Doc R)))).depth + 1 := by
    simp only [toDoc, ingredientsDoc, withoutNulls, withoutNullsFields, isNull, Doc.depth,
      depthOfFields, Bool.false_eq_true, if_false, Nat.max_zero]
  rw [hmap, hi, he]
  omega

variable [Scalar R]

/-- **A sandwich is read back** although absent lists of children are left out. -/
theorem ofDoc_withoutNulls {room : Nat} {s : Sandwich}
    (hi : Ingredient.heights s.ingredients ≤ room - 1)
    (he : Ingredient.heights s.ensured ≤ room - 1) :
    ofDoc room (s.toDoc : Doc R).withoutNulls = .sound s := by
  simp [ofDoc, toDoc, withoutNulls, withoutNullsFields, isNull, asRecord, fieldOr,
    Register.find?, ingredientsDoc, Ingredient.asListOf_withoutNulls hi,
    Ingredient.asListOf_withoutNulls he, asFlag, asText]

end Sandwich

namespace Message

/-- How high the trees of a sandwich may be for their frame to be read. -/
def heightLimit : Nat := 99

/-- A message whose trees are not too high. -/
def Shallow (m : Message) : Prop := ∀ s ∈ m.sandwich,
  Ingredient.heights s.ingredients ≤ heightLimit ∧ Ingredient.heights s.ensured ≤ heightLimit

variable {m : Message}

theorem withoutNulls_eq (m : Message) : (m.toDoc : Doc R).withoutNulls =
    .map ((m.text.map fun t => ("text", .text t)).toList ++
      (m.sandwich.map fun s => ("sandwich", s.toDoc.withoutNulls)).toList) := by
  obtain ⟨text, sandwich⟩ := m
  cases text <;> cases sandwich <;>
    simp [toDoc, withoutNulls, withoutNullsFields, isNull, Doc.optional, Sandwich.toDoc]

theorem wordy_withoutNulls (m : Message) : (m.toDoc : Doc R).withoutNulls.Wordy := by
  have hitems := Ingredient.wordy_withoutNullsItems (R := R)
  obtain ⟨text, sandwich⟩ := m
  rw [withoutNulls_eq]
  cases text <;> cases sandwich <;>
    simp [Sandwich.toDoc, Sandwich.ingredientsDoc, withoutNulls, withoutNullsFields, isNull,
      Wordy, WordyFields, hitems]

/-- A message is nested too deeply exactly if one of its trees is too high. -/
theorem depth_withoutNulls :
    (m.toDoc : Doc R).withoutNulls.depth ≤ Frame.depthLimit ↔ m.Shallow := by
  obtain ⟨text, sandwich⟩ := m
  rw [withoutNulls_eq]
  cases sandwich with
  | none =>
    refine ⟨fun _ => nofun, fun _ => ?_⟩
    cases text <;> simp [Doc.depth, depthOfFields, Frame.depthLimit]
  | some s =>
    have hdepth : (s.toDoc : Doc R).withoutNulls.depth + 1 ≤ Frame.depthLimit ↔
        Ingredient.heights s.ingredients ≤ heightLimit ∧
          Ingredient.heights s.ensured ≤ heightLimit := by
      rw [Sandwich.depth_withoutNulls, heightLimit, Frame.depthLimit]
      omega
    have hshallow : (⟨text, some s⟩ : Message).Shallow ↔
        Ingredient.heights s.ingredients ≤ heightLimit ∧
          Ingredient.heights s.ensured ≤ heightLimit :=
      ⟨fun h => h s rfl, fun h _ hs => Option.some.inj hs ▸ h⟩
    rw [hshallow, ← hdepth]
    cases text <;> simp [Doc.depth, depthOfFields]

/-- **A message is read back** although its absent parts are left out. -/
theorem ofDoc_withoutNulls [Scalar R] (h : m.Shallow) :
    ofDoc (m.toDoc : Doc R).withoutNulls = .sound m := by
  obtain ⟨text, sandwich⟩ := m
  rw [withoutNulls_eq]
  cases sandwich with
  | none =>
    cases text <;> simp [ofDoc, asRecord, fieldOr, Register.find?, asOptional, asText]
  | some s =>
    obtain ⟨hi, he⟩ := h s rfl
    have hs : Sandwich.ofDoc nestingLimit (s.toDoc : Doc R).withoutNulls = .sound s :=
      Sandwich.ofDoc_withoutNulls (by simp only [heightLimit, nestingLimit] at hi ⊢; omega)
      (by simp only [heightLimit, nestingLimit] at he ⊢; omega)
    have hmap : asOptional (Sandwich.ofDoc nestingLimit) (s.toDoc : Doc R).withoutNulls =
        .sound (some s) := by
      rw [Sandwich.toDoc, withoutNulls, asOptional]
      · rw [Sandwich.toDoc, withoutNulls] at hs
        rw [hs]
        rfl
      · simp
    cases text <;> simp [ofDoc, asRecord, fieldOr, Register.find?, hmap]
    simp [asOptional, asText]

end Message

/-! ## 3. Frames -/

namespace Frame

/-- The text of a message ends in a brace. -/
theorem exists_body (m : Message) : ∃ cs, body R m = cs ++ ['\x7d'] := by
  obtain ⟨fields, hfields⟩ : ∃ fields, (m.toDoc : Doc R).withoutNulls = .map fields :=
    ⟨_, Message.withoutNulls_eq m⟩
  unfold body
  rw [hfields]
  cases fields with
  | nil => exact ⟨['\x7b'], by rw [Json.write]; rfl⟩
  | cons p rest =>
    obtain ⟨key, d⟩ := p
    rw [Json.write]
    exact ⟨_ :: _, rfl⟩

/-- What is left of the text of a message and some zeros is the text, which is not empty. -/
theorem trimmed_body (m : Message) (k : Nat) :
    trimmed (bytesOf (body R m) ++ List.replicate k 0) = bytesOf (body R m) ∧
      (bytesOf (body R m)).isEmpty = false := by
  obtain ⟨cs, hcs⟩ := exists_body (R := R) m
  have hbrace : bytesOf ['\x7d'] = [125] := by
    rw [bytesOf_eq]
    rfl
  rw [hcs, bytesOf_append, hbrace]
  exact ⟨trimmed_append (by decide) k, by simp⟩

/-- The text of a message is read as it is, whatever zeros stand behind it. -/
theorem decode_padded [Scalar R] (m : Message) (k : Nat) :
    decode R (bytesOf (body R m) ++ List.replicate k 0) =
      match Json.read? depthLimit (body R m) with
      | none => .error (.malformed [⟨[], .malformed⟩])
      | some d =>
        match Message.ofDoc (d : Doc R) with
        | .sound m => .ok m
        | .flawed problems => .error (.malformed problems) := by
  obtain ⟨htrimmed, hsome⟩ := trimmed_body (R := R) m k
  have hdoc : docOf? R (bytesOf (body R m)) = Json.read? depthLimit (body R m) := by
    unfold docOf?
    rw [textOf?_bytesOf]
    show Json.read? depthLimit (String.ofList (body R m)).toList = _
    rw [String.toList_ofList]
  unfold decode
  simp only [htrimmed, hsome, hdoc]
  rfl

/-- **The text of a shallow message is read back**, whatever zeros stand behind it. -/
theorem decode_shallow [Scalar R] {m : Message} (h : m.Shallow) (k : Nat) :
    decode R (bytesOf (body R m) ++ List.replicate k 0) = .ok m := by
  have hcompact : (layout R).Compact := ⟨rfl, rfl⟩
  have hread : Json.read? depthLimit (body R m) = some (m.toDoc : Doc R).withoutNulls :=
    Json.read?_write hcompact (Message.wordy_withoutNulls m) (Message.depth_withoutNulls.mpr h)
  rw [decode_padded, hread]
  simp only [Message.ofDoc_withoutNulls h]

/-- A frame is the text of its message with zeros behind it. -/
theorem encode_spec {m : Message} {size : Int} {frame : List UInt8}
    (h : encode R size m = .ok frame) : ((bytesOf (body R m)).length : Int) ≤ size ∧
      frame = bytesOf (body R m) ++
        List.replicate (size.toNat - (bytesOf (body R m)).length) 0 := by
  unfold encode at h
  simp only at h
  split at h
  · cases h
  · rename_i hfits
    split at h
    · cases h
    · cases h
      exact ⟨Int.not_lt.mp hfits, rfl⟩

/-- **A frame gives its message back.** -/
theorem decode_encode [Scalar R] {m : Message} {size : Int} {frame : List UInt8}
    (h : m.Shallow) (he : encode R size m = .ok frame) : decode R frame = .ok m := by
  rw [(encode_spec he).2]
  exact decode_shallow h _

/-- **A short message has a frame.** -/
theorem exists_encode {m : Message} {size : Int}
    (h : 4 * ((body R m).length : Int) ≤ size) (hsize : size < sizeBound) :
    ∃ frame, encode R size m = .ok frame := by
  have hle := length_bytesOf_le (body R m)
  unfold encode
  simp only
  rw [if_neg (by omega), if_neg (by omega)]
  exact ⟨_, rfl⟩

end Frame

end DeliTalk
