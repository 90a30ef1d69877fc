import DartSync.Foundation.Codec

/-!
# Records of different lengths

Records in a buffer, one behind the other: a header of fixed size, which says how
long the body behind it is.  A loop walks over them with a pointer that it moves
by the size of the record it is at.
-/

namespace DartSync
namespace Foundation

universe u v

variable {α : Type u} {σ : Type v}

structure RecordFormat (α : Type u) where
  header : Codec α
  bodySize : α -> Nat

namespace RecordFormat

structure Record (f : RecordFormat α) where
  head : α
  body : List UInt8
  sized : body.length = f.bodySize head

variable {f : RecordFormat α}

def Record.encode (r : f.Record) : List UInt8 :=
  f.header.encode r.head ++ r.body

def encodeAll (records : List f.Record) : List UInt8 :=
  records.flatMap Record.encode

/-- The loop over the first `length` bytes of a buffer, from `p` on.  A turn gets
the header and the bytes from the body to the end of the buffer; it is `none`
where the header does not lie in the buffer. -/
def walk (f : RecordFormat α) (turn : σ -> α -> List UInt8 -> Option σ)
    (buffer : List UInt8) (length : Int) : Nat -> Nat -> σ -> Option σ
  | turns, p, s =>
      if length ≤ p then some s
      else
        match turns with
        | 0 => none
        | turns + 1 =>
            if p + f.header.size ≤ buffer.length then
              let head := f.header.decode (buffer.drop p)
              (turn s head (buffer.drop (p + f.header.size))).bind
                (walk f turn buffer length turns
                  (p + f.header.size + f.bodySize head))
            else none

section Walk

variable {turn : σ -> α -> List UInt8 -> Option σ} {buffer : List UInt8}
  {length : Int} {turns p : Nat} {s : σ}

theorem walk_of_end (h : length ≤ p) :
    walk f turn buffer length turns p s = some s := by
  unfold walk
  rw [if_pos h]

theorem walk_record {r : f.Record} {front back : List UInt8}
    (hbuffer : buffer = front ++ (r.encode ++ back)) (hp : p = front.length)
    (hlength : ¬ length ≤ p) :
    walk f turn buffer length (turns + 1) p s =
      (turn s r.head (r.body ++ back)).bind
        (walk f turn buffer length turns (p + r.encode.length)) := by
  have hheader := f.header.length_encode r.head
  have hsplit : buffer = front ++ f.header.encode r.head ++
      (r.body ++ back) := by
    rw [hbuffer, Record.encode, List.append_assoc, List.append_assoc]
  have hfront : (front ++ f.header.encode r.head).length =
      p + f.header.size := by
    rw [List.length_append, hheader, hp]
  have hinside : p + f.header.size ≤ buffer.length := by
    rw [hsplit, List.length_append, hfront]
    exact Nat.le_add_right _ _
  have hbehind : buffer.drop (p + f.header.size) = r.body ++ back := by
    rw [hsplit, ← hfront, List.drop_left]
  have hhead : f.header.decode (buffer.drop p) = r.head := by
    rw [hsplit, hp, List.append_assoc, List.drop_left,
      f.header.decode_encode]
  have hsize : p + f.header.size + f.bodySize r.head =
      p + r.encode.length := by
    rw [Record.encode, List.length_append, hheader, r.sized, Nat.add_assoc]
  rw [walk, if_neg hlength, if_pos hinside]
  dsimp only
  rw [hhead, hbehind, hsize]

/-- The loop visits the records in their order and ends behind the last, if no
turn looks behind its record. -/
theorem walk_encodeAll {act : σ -> f.Record -> Option σ}
    {records : List f.Record} {front back : List UInt8}
    (hturn : forall r, r ∈ records -> forall s back,
      turn s r.head (r.body ++ back) = act s r)
    (hpositive : 0 < f.header.size)
    (hbuffer : buffer = front ++ (encodeAll records ++ back))
    (hp : p = front.length)
    (hlength : length = p + (encodeAll records).length)
    (hturns : records.length ≤ turns) :
    walk f turn buffer length turns p s = records.foldlM act s := by
  induction records generalizing front p s turns with
  | nil =>
      rw [walk_of_end]
      · rfl
      · rw [hlength]
        exact Int.le_of_eq (Int.add_zero _)
  | cons r rest ih =>
      cases turns with
      | zero => cases hturns
      | succ turns =>
          rw [List.forall_mem_cons] at hturn
          have hall : encodeAll (r :: rest) = r.encode ++ encodeAll rest :=
            List.flatMap_cons
          have hsize : 0 < r.encode.length := by
            rw [Record.encode, List.length_append, f.header.length_encode]
            omega
          rw [hall, List.append_assoc] at hbuffer
          rw [hall, List.length_append] at hlength
          rw [walk_record hbuffer hp (by omega), hturn.left, List.foldlM_cons]
          apply congrArg (Option.bind (act s r))
          funext t
          apply ih hturn.right
          · rw [hbuffer, ← List.append_assoc]
          · rw [List.length_append, hp]
          · rw [hlength]
            omega
          · exact Nat.le_of_succ_le_succ hturns

end Walk

theorem length_le_encodeAll (hpositive : 0 < f.header.size)
    (records : List f.Record) :
    records.length ≤ (encodeAll records).length := by
  induction records with
  | nil => exact Nat.zero_le _
  | cons r rest ih =>
      have hall : encodeAll (r :: rest) = r.encode ++ encodeAll rest :=
        List.flatMap_cons
      rw [hall, List.length_append, List.length_cons, Record.encode,
        List.length_append, f.header.length_encode]
      omega

end RecordFormat

end Foundation
end DartSync
