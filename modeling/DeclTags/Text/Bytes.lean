set_option autoImplicit false

/-! # Texts as bytes

Offsets into a text count the bytes of its UTF-8 form. Here are the parts of a text between two
such offsets, and the reading of bytes as text: a byte sequence is refused at the first offset
where no character can be read. -/

namespace DeclTags.Text

/-- The number of bytes of a text. -/
def byteSize : List Char → Nat
  | [] => 0
  | c :: cs => c.utf8Size + byteSize cs

/-! ## Parts of a text -/

/-- The part of a text between two byte offsets, each where a character begins or the text ends. -/
def slice (start stop : Nat) (s : String) : String := String.Pos.Raw.extract s ⟨start⟩ ⟨stop⟩

theorem slice_of_le {start stop : Nat} (h : stop ≤ start) (s : String) : slice start stop s = "" :=
  if_pos h

theorem ne_add_byteSize (c : Char) (cs : List Char) (i : Nat) :
    (⟨i⟩ : String.Pos.Raw) ≠ ⟨i + byteSize (c :: cs)⟩ := by
  have := c.utf8Size_pos
  intro h
  have h := congrArg String.Pos.Raw.byteIdx h
  simp only [byteSize] at h
  omega

open String.Pos.Raw.extract in
theorem extract_before (before rest : List Char) (i : Nat) (stop : String.Pos.Raw) :
    go₁ (before ++ rest) ⟨i⟩ ⟨i + byteSize before⟩ stop =
      go₁ rest ⟨i + byteSize before⟩ ⟨i + byteSize before⟩ stop := by
  induction before generalizing i with
  | nil => rfl
  | cons c cs ih =>
    have h := ih (i + c.utf8Size)
    rw [Nat.add_assoc] at h
    exact (if_neg (ne_add_byteSize c cs i)).trans h

open String.Pos.Raw.extract in
theorem extract_part (part after : List Char) (i : Nat) :
    go₂ (part ++ after) ⟨i⟩ ⟨i + byteSize part⟩ = part := by
  induction part generalizing i with
  | nil =>
    cases after with
    | nil => rfl
    | cons c cs => exact if_pos rfl
  | cons c cs ih =>
    have h := ih (i + c.utf8Size)
    rw [Nat.add_assoc] at h
    exact (if_neg (ne_add_byteSize c cs i)).trans (congrArg (c :: ·) h)

/-- Between what stands before a part and what stands after it, the slice is that part. -/
theorem slice_part (before part after : List Char) :
    slice (byteSize before) (byteSize before + byteSize part)
      (String.ofList (before ++ part ++ after)) = String.ofList part := by
  cases part with
  | nil => exact slice_of_le (Nat.le_refl _) _
  | cons c cs =>
    have hb := extract_before before (c :: cs ++ after) 0 ⟨byteSize before + byteSize (c :: cs)⟩
    have hp := extract_part (c :: cs) after (byteSize before)
    have hlt : ¬byteSize before ≥ byteSize before + byteSize (c :: cs) := by
      have := c.utf8Size_pos
      simp only [byteSize]
      omega
    rw [Nat.zero_add] at hb
    refine (if_neg hlt).trans (congrArg String.ofList ?_)
    rw [String.toList_ofList, List.append_assoc]
    exact (hb.trans (if_pos rfl)).trans hp

/-! ## Texts and their bytes -/

/-- The bytes of a text. -/
def bytesOf (cs : List Char) : List UInt8 := cs.flatMap String.utf8EncodeChar

/-- What a first byte above ASCII announces: the number of bytes that follow it, and the least and
the greatest value of the first of them. -/
def announced (b : UInt8) : Option (Nat × UInt8 × UInt8) :=
  if b < 0xC2 then none
  else if b < 0xE0 then some (1, 0x80, 0xBF)
  else if b = 0xE0 then some (2, 0xA0, 0xBF)
  else if b = 0xED then some (2, 0x80, 0x9F)
  else if b < 0xF0 then some (2, 0x80, 0xBF)
  else if b = 0xF0 then some (3, 0x90, 0xBF)
  else if b < 0xF4 then some (3, 0x80, 0xBF)
  else if b = 0xF4 then some (3, 0x80, 0x8F)
  else none

/-- The code point spelled by a first byte with `n` bytes after it. -/
def codePoint (first : UInt8) (following : List UInt8) : Nat :=
  following.foldl (fun code b => code * 64 + b.toNat % 64)
    (first.toNat % Nat.pow 2 (6 - following.length))

/-- The character at the head of the bytes and the number of its bytes. -/
def charAtHead? : List UInt8 → Option (Char × Nat)
  | [] => none
  | b :: rest =>
    if b < 0x80 then some (Char.ofNat b.toNat, 1)
    else
      match announced b with
      | none => none
      | some (n, low, high) =>
        let following := rest.take n
        if following.length = n
            && following.head?.any (fun c => low ≤ c && c ≤ high)
            && following.all (fun c => 0x80 ≤ c && c ≤ 0xBF) then
          some (Char.ofNat (codePoint b following), n + 1)
        else none

/-- The characters of the bytes from `offset` on, after those of `read` (last first). -/
def decodeFrom (read : List Char) (offset : Nat) (bytes : List UInt8) :
    Except Nat (List Char) :=
  match bytes with
  | [] => .ok read.reverse
  | b :: rest =>
    match charAtHead? (b :: rest) with
    | none => .error offset
    | some (c, n) => decodeFrom (c :: read) (offset + n) (rest.drop (n - 1))
termination_by bytes.length
decreasing_by simp only [List.length_drop, List.length_cons]; omega

/-- The text that the bytes spell, or the number of bytes before the first fault. -/
def decode (bytes : List UInt8) : Except Nat (List Char) := decodeFrom [] 0 bytes

end DeclTags.Text
