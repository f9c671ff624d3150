import Mathlib.Algebra.Group.Int.Defs
import Mathlib.Algebra.GroupWithZero.Nat
import Mathlib.Data.List.Basic

/-!
# Blindport.Text.Address

Canonical texts of the identifiers that cross the backend/relay boundary:
dotted IPv4 addresses and UUIDs.  Each has a value type, the text the writer
produces (`IPv4.text`, `Uuid.text`) and the strict reader of the other side
(`parseIPv4`, `canonicalUuid`).  The lemmas say that every written text is
read back, and that different values have different texts.
-/

/-! ## bounds -/

/- The bounds of nibbles, octets and groups are not zero: their literals share these. -/

instance neZero_nibble : NeZero (16 : Nat) := ⟨by decide⟩

instance neZero_octet : NeZero (256 : Nat) := ⟨by decide⟩

instance neZero_group : NeZero (65536 : Nat) := ⟨by decide⟩

/-! ## joined texts -/

/-- Joining two lists puts one separator between what they join to. -/
theorem intercalate_append {α : Type} {sep : α} {xs ys : List (List α)} (hx : xs ≠ [])
    (hy : ys ≠ []) :
    [sep].intercalate (xs ++ ys) = [sep].intercalate xs ++ sep :: [sep].intercalate ys := by
  induction xs with
  | nil => exact absurd rfl hx
  | cons x xs ih =>
      by_cases hxs : xs = []
      · rw [hxs, List.singleton_append, List.intercalate_cons_of_ne_nil hy,
          List.intercalate_singleton]
        simp
      · rw [List.cons_append, List.intercalate_cons_of_ne_nil (by simp [hxs]), ih hxs,
          List.intercalate_cons_of_ne_nil hxs]
        simp

theorem mem_intercalate {α : Type} {sep x : α} {ls : List (List α)}
    (h : x ∈ [sep].intercalate ls) : x = sep ∨ ∃ l ∈ ls, x ∈ l := by
  induction ls with
  | nil => simp at h
  | cons l ls ih =>
      by_cases hls : ls = []
      · subst hls
        rw [List.intercalate_singleton] at h
        exact Or.inr ⟨l, by simp, h⟩
      · rw [List.intercalate_cons_of_ne_nil hls] at h
        simp only [List.mem_append, List.mem_singleton] at h
        grind

theorem length_intercalate_le {α : Type} (sep : α) {k : Nat} {ts : List (List α)}
    (h : ∀ t ∈ ts, t.length ≤ k) : ([sep].intercalate ts).length ≤ (k + 1) * ts.length := by
  induction ts with
  | nil => simp
  | cons t ts ih =>
      have ht := h t List.mem_cons_self
      have hts := ih fun t ht => h t (List.mem_cons_of_mem _ ht)
      by_cases hnil : ts = []
      · rw [hnil, List.intercalate_singleton, List.length_singleton]
        omega
      · rw [List.intercalate_cons_of_ne_nil hnil, List.length_append, List.length_append,
          List.length_singleton, List.length_cons, Nat.mul_succ]
        omega

/-! ## canonical decimals -/

namespace Decimal

/-- The value of a decimal digit character. -/
def digit? (c : Char) : Option Nat :=
  if '0' ≤ c ∧ c ≤ '9' then some (c.toNat - 48) else none

/-- A canonical decimal: at least one digit, nothing else, and no leading
zero. -/
def parse? (cs : List Char) : Option Nat :=
  if cs = [] ∨ (cs.head? = some '0' ∧ cs.length ≠ 1) then none
  else cs.foldl (fun acc c => acc.bind fun n => (digit? c).map (10 * n + ·)) (some 0)

end Decimal

/-! ## IPv4 -/

/-- An IPv4 address by its four octets. -/
structure IPv4 where
  a : Fin 256
  b : Fin 256
  c : Fin 256
  d : Fin 256
deriving DecidableEq

namespace IPv4

/-- The four octets in order. -/
def octets (ip : IPv4) : List (Fin 256) := [ip.a, ip.b, ip.c, ip.d]

/-- The characters of one octet. -/
def octetText (o : Fin 256) : List Char := Nat.toDigits 10 o.val

/-- The characters of the dotted quad. -/
def chars (ip : IPv4) : List Char := ['.'].intercalate (ip.octets.map octetText)

/-- The dotted quad, as `str(ip_address(...))` and `netip.Addr.String` print
it. -/
def text (ip : IPv4) : String := String.ofList ip.chars

/-- One octet field: a canonical decimal of at most 255. -/
def parseOctet (cs : List Char) : Option (Fin 256) :=
  (Decimal.parse? cs).bind fun n => if h : n < 256 then some ⟨n, h⟩ else none

/-- `netip.ParseAddr` on a dotted quad. -/
def parse (cs : List Char) : Option IPv4 :=
  match cs.splitOn '.' with
  | [w, x, y, z] => do
      let a ← parseOctet w
      let b ← parseOctet x
      let c ← parseOctet y
      let d ← parseOctet z
      some ⟨a, b, c, d⟩
  | _ => none

private theorem octetText_spec : ∀ o : Fin 256,
    parseOctet (octetText o) = some o ∧ '.' ∉ octetText o ∧ '/' ∉ octetText o := by
  decide +kernel

@[simp] theorem parseOctet_octetText (o : Fin 256) : parseOctet (octetText o) = some o :=
  (octetText_spec o).1

/-- The fields of a printed address are its octets. -/
theorem splitOn_chars (ip : IPv4) : ip.chars.splitOn '.' = ip.octets.map octetText := by
  apply List.splitOn_intercalate
  · intro l hl
    obtain ⟨o, -, rfl⟩ := List.mem_map.mp hl
    exact (octetText_spec o).2.1
  · simp [octets]

/-- **Round trip**: a printed address is read back. -/
@[simp] theorem parse_chars (ip : IPv4) : parse ip.chars = some ip := by
  unfold parse
  rw [splitOn_chars]
  simp [octets]

/-- A printed address holds no slash. -/
theorem slash_notMem_chars (ip : IPv4) : '/' ∉ ip.chars := by
  simp only [chars, octets, List.map_cons, List.map_nil, List.intercalate, List.intersperse,
    List.flatten_cons, List.flatten_nil, List.mem_append, List.mem_singleton, List.not_mem_nil,
    or_false, not_or]
  refine ⟨(octetText_spec _).2.2, by decide, (octetText_spec _).2.2, by decide,
    (octetText_spec _).2.2, by decide, (octetText_spec _).2.2⟩

@[simp] theorem toList_text (ip : IPv4) : ip.text.toList = ip.chars := by simp [text]

theorem text_injective : Function.Injective text := by
  intro x y h
  have hc : x.chars = y.chars := by rw [← toList_text, ← toList_text, h]
  have hp : parse x.chars = parse y.chars := by rw [hc]
  simpa using hp

end IPv4

/-! ## UUIDs -/

/-- A UUID by its 32 hexadecimal digits. -/
structure Uuid where
  nibbles : List (Fin 16)
  length_eq : nibbles.length = 32
deriving DecidableEq

namespace Uuid

/-- Lowercase hexadecimal digit. -/
def hexDigit (n : Fin 16) : Char :=
  if n.val < 10 then Char.ofNat (48 + n.val) else Char.ofNat (87 + n.val)

/-- A lowercase hexadecimal digit character. -/
def isLowerHex (c : Char) : Bool := ('0' ≤ c ∧ c ≤ '9') ∨ ('a' ≤ c ∧ c ≤ 'f')

private theorem hexDigit_spec : ∀ n : Fin 16, isLowerHex (hexDigit n) = true := by decide

theorem hexDigit_injective : Function.Injective hexDigit := by
  have h : ∀ m n : Fin 16, hexDigit m = hexDigit n → m = n := by decide
  exact fun m n => h m n

/-- The 32 digits without separators. -/
def hex (u : Uuid) : List Char := u.nibbles.map hexDigit

@[simp] theorem length_hex (u : Uuid) : u.hex.length = 32 := by simp [hex, u.length_eq]

/-- A digit 32 times, as samples repeat it. -/
theorem length_zeros : (List.replicate 32 (0 : Fin 16)).length = 32 := rfl

theorem length_ones : (List.replicate 32 (1 : Fin 16)).length = 32 := rfl

/-- The characters of the 8-4-4-4-12 form. -/
def chars (u : Uuid) : List Char :=
  u.hex.take 8 ++ '-' :: ((u.hex.drop 8).take 4 ++ '-' :: ((u.hex.drop 12).take 4 ++
    '-' :: ((u.hex.drop 16).take 4 ++ '-' :: u.hex.drop 20)))

/-- The canonical text, as `str(uuid)` prints it. -/
def text (u : Uuid) : String := String.ofList u.chars

@[simp] theorem toList_text (u : Uuid) : u.text.toList = u.chars := by simp [text]

/-- Read `n` lowercase hexadecimal digits. -/
def readHex : Nat → List Char → Option (List Char)
  | 0, cs => some cs
  | n + 1, c :: cs => if isLowerHex c then readHex n cs else none
  | _ + 1, [] => none

/-- Read one separator. -/
def readDash : List Char → Option (List Char)
  | '-' :: cs => some cs
  | _ => none

/-- `parseCanonicalUUID`, as a test: lowercase digits in 8-4-4-4-12 form and
nothing after them. -/
def canonical (value : String) : Bool :=
  let rest := (readHex 8 value.toList).bind readDash |>.bind (readHex 4) |>.bind readDash
    |>.bind (readHex 4) |>.bind readDash |>.bind (readHex 4) |>.bind readDash
    |>.bind (readHex 12)
  rest = some []

theorem readHex_append (xs rest : List Char) (h : ∀ c ∈ xs, isLowerHex c = true) :
    readHex xs.length (xs ++ rest) = some rest := by
  induction xs with
  | nil => rfl
  | cons c cs ih =>
      have hc := h c List.mem_cons_self
      have hcs := ih fun d hd => h d (List.mem_cons_of_mem c hd)
      simp [readHex, hc, hcs]

theorem isLowerHex_of_mem_hex {u : Uuid} (h : c ∈ u.hex) : isLowerHex c = true := by
  obtain ⟨n, -, rfl⟩ := List.mem_map.mp h
  exact hexDigit_spec n

private theorem readHex_slice (u : Uuid) (i n : Nat) (h : i + n ≤ 32) (rest : List Char) :
    readHex n ((u.hex.drop i).take n ++ rest) = some rest := by
  have hlen : ((u.hex.drop i).take n).length = n := by simp; omega
  have := readHex_append ((u.hex.drop i).take n) rest fun c hc =>
    isLowerHex_of_mem_hex (List.mem_of_mem_drop (List.mem_of_mem_take hc))
  rwa [hlen] at this

/-- Every printed UUID is canonical. -/
@[simp] theorem canonical_text (u : Uuid) : canonical u.text = true := by
  have h0 := fun rest => readHex_slice u 0 8 (by omega) rest
  have h8 := fun rest => readHex_slice u 8 4 (by omega) rest
  have h12 := fun rest => readHex_slice u 12 4 (by omega) rest
  have h16 := fun rest => readHex_slice u 16 4 (by omega) rest
  have h20 : readHex 12 (u.hex.drop 20) = some [] := by
    have := readHex_slice u 20 12 (by omega) []
    rwa [List.append_nil, List.take_of_length_le (by simp)] at this
  simp only [List.drop_zero] at h0
  simp only [canonical, toList_text, chars, h0, h8, h12, h16, h20, Option.bind_some, readDash,
    decide_true]

private theorem chars_inj {u v : Uuid} (h : u.chars = v.chars) : u.hex = v.hex := by
  have hu := u.length_hex
  have hv := v.length_hex
  obtain ⟨h0, h⟩ := List.append_inj h (by simp [hu, hv])
  obtain ⟨h1, h⟩ := List.append_inj (List.cons_inj_right _ |>.mp h) (by simp [hu, hv])
  obtain ⟨h2, h⟩ := List.append_inj (List.cons_inj_right _ |>.mp h) (by simp [hu, hv])
  obtain ⟨h3, h⟩ := List.append_inj (List.cons_inj_right _ |>.mp h) (by simp [hu, hv])
  have h4 := List.cons_inj_right _ |>.mp h
  have split : ∀ xs : List Char, xs = xs.take 8 ++ ((xs.drop 8).take 4 ++ ((xs.drop 12).take 4 ++
      ((xs.drop 16).take 4 ++ xs.drop 20))) := by
    intro xs
    have e (i : Nat) : (xs.drop i).take 4 ++ xs.drop (i + 4) = xs.drop i := by
      rw [← List.drop_drop]; exact List.take_append_drop 4 _
    rw [e 16, e 12, e 8, List.take_append_drop]
  rw [split u.hex, split v.hex, h0, h1, h2, h3, h4]

theorem text_injective : Function.Injective text := by
  intro u v h
  have hc : u.chars = v.chars := by rw [← toList_text, ← toList_text, h]
  have hn := List.map_injective_iff.mpr hexDigit_injective (chars_inj hc)
  cases u
  cases v
  simpa using hn

end Uuid
