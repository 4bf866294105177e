import Mathlib

/-!
# Fields with their lengths before them

A list of fields as one stream of bytes. Neither the number of fields nor an end is encoded; the
lengths alone say where the fields stop.
-/

namespace MediaBackup

namespace LengthPrefix

/-- A number in so many bytes, the most significant one first. -/
def beBytes : Nat → Nat → List UInt8
  | 0, _ => []
  | width + 1, n => beBytes width (n / 256) ++ [UInt8.ofNat n]

@[simp] theorem length_beBytes (width n : Nat) : (beBytes width n).length = width := by
  induction width generalizing n with
  | zero => rfl
  | succ width ih => simp [beBytes, ih]

theorem beBytes_inj {width m n : Nat} (hm : m < 256 ^ width) (hn : n < 256 ^ width)
    (h : beBytes width m = beBytes width n) : m = n := by
  induction width generalizing m n with
  | zero =>
    simp at hm hn
    omega
  | succ width ih =>
    have happend := List.append_inj h (by simp)
    have hhigh : m / 256 = n / 256 :=
      ih (Nat.div_lt_of_lt_mul (by rwa [pow_succ, mul_comm] at hm))
        (Nat.div_lt_of_lt_mul (by rwa [pow_succ, mul_comm] at hn)) happend.1
    have hlow : m % 256 = n % 256 := by
      have hbyte := congrArg UInt8.toNat (List.cons.inj happend.2).1
      simpa using hbyte
    omega

/-- The length of a field in eight bytes, and the field. -/
def frame (field : List UInt8) : List UInt8 := beBytes 8 field.length ++ field

def stream (fields : List (List UInt8)) : List UInt8 := fields.flatMap frame

theorem stream_append (fields fields' : List (List UInt8)) :
    stream (fields ++ fields') = stream fields ++ stream fields' := List.flatMap_append

/-- The length fits its eight bytes. -/
def Fits (field : List UInt8) : Prop := field.length < 2 ^ 64

/-- The first field and what follows it can be told apart. -/
theorem frame_append_inj {a b r r' : List UInt8} (ha : Fits a) (hb : Fits b)
    (h : frame a ++ r = frame b ++ r') : a = b ∧ r = r' := by
  simp only [frame, List.append_assoc] at h
  have hprefix := List.append_inj h (by simp)
  have hlength : a.length = b.length := beBytes_inj ha hb hprefix.1
  exact List.append_inj hprefix.2 hlength

theorem frame_append_ne_nil (field rest : List UInt8) : frame field ++ rest ≠ [] := by
  intro h
  have hlength := congrArg List.length h
  simp [frame] at hlength

/-- No two lists of fields have the same stream. -/
theorem stream_inj {fields fields' : List (List UInt8)} (hfits : ∀ field ∈ fields, Fits field)
    (hfits' : ∀ field ∈ fields', Fits field) (h : stream fields = stream fields') :
    fields = fields' := by
  induction fields generalizing fields' with
  | nil =>
    cases fields' with
    | nil => rfl
    | cons field' rest' => exact absurd h.symm (frame_append_ne_nil field' (stream rest'))
  | cons field rest ih =>
    cases fields' with
    | nil => exact absurd h (frame_append_ne_nil field (stream rest))
    | cons field' rest' =>
      have hhead := hfits field List.mem_cons_self
      have hhead' := hfits' field' List.mem_cons_self
      obtain ⟨hfield, hrest⟩ := frame_append_inj hhead hhead' h
      have htail := ih (fun f hf => hfits f (List.mem_cons_of_mem _ hf))
        (fun f hf => hfits' f (List.mem_cons_of_mem _ hf)) hrest
      rw [hfield, htail]

/-- Records of a fixed number of fields are told apart as their fields are. -/
theorem flatMap_inj {α : Type} {fields : α → List (List UInt8)} {width : Nat} (hpos : 0 < width)
    (hwidth : ∀ a, (fields a).length = width) (hinj : Function.Injective fields) {l l' : List α}
    (h : l.flatMap fields = l'.flatMap fields) : l = l' := by
  induction l generalizing l' with
  | nil =>
    cases l' with
    | nil => rfl
    | cons a' rest' =>
      have hlength := congrArg List.length h
      simp [hwidth] at hlength
      omega
  | cons a rest ih =>
    cases l' with
    | nil =>
      have hlength := congrArg List.length h
      simp [hwidth] at hlength
      omega
    | cons a' rest' =>
      have hsame : (fields a).length = (fields a').length := by rw [hwidth, hwidth]
      obtain ⟨hhead, htail⟩ := List.append_inj h hsame
      rw [hinj hhead, ih htail]

end LengthPrefix

end MediaBackup
