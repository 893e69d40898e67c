import IopHal.Bytes

/-!
# The block function of MD5

`body` takes a block through 64 steps that are written out one below the other.  The four registers keep their places and
change their roles, F and G are written without an AND-NOT, and the words of the block come from the block itself or from a
copy that the first round makes.  `transform_eq` follows all of the steps: on every target they are the rounds of RFC 1321,
which rotate the registers and compute which word, which shift and which function is next (`Rfc.compress`).
-/

namespace IopHal.Md5

/-- `a`, `b`, `c` and `d` -/
structure Regs where
  a : UInt32
  b : UInt32
  c : UInt32
  d : UInt32
  deriving DecidableEq

def Regs.add (r saved : Regs) : Regs := ⟨r.a + saved.a, r.b + saved.b, r.c + saved.c, r.d + saved.d⟩

/-- The byte that `ptr[i]` reads, as a word. -/
def byteAt (ptr : Bytes) (i : Nat) : UInt32 := (ptr.getD i 0).toUInt32

/-- Four bytes in little-endian order. -/
def word (ptr : Bytes) (n : Nat) : UInt32 :=
  byteAt ptr (n * 4) ||| byteAt ptr (n * 4 + 1) <<< 8 ||| byteAt ptr (n * 4 + 2) <<< 16 ||| byteAt ptr (n * 4 + 3) <<< 24

/-! ### RFC 1321 -/

namespace Rfc

/-- The auxiliary functions, by the number of the step. -/
def f (i : Nat) (x y z : UInt32) : UInt32 :=
  if i < 16 then (x &&& y) ||| (~~~x &&& z)
  else if i < 32 then (x &&& z) ||| (y &&& ~~~z)
  else if i < 48 then x ^^^ y ^^^ z
  else y ^^^ (x ||| ~~~z)

/-- The word of the block that a step adds. -/
def k (i : Nat) : Nat :=
  if i < 16 then i
  else if i < 32 then (5 * i + 1) % 16
  else if i < 48 then (3 * i + 5) % 16
  else 7 * i % 16

/-- How far a step rotates. -/
def s (i : Nat) : Nat :=
  if i < 16 then #v[7, 12, 17, 22][i % 4]
  else if i < 32 then #v[5, 9, 14, 20][i % 4]
  else if i < 48 then #v[4, 11, 16, 23][i % 4]
  else #v[6, 10, 15, 21][i % 4]

/-- The table of sines. -/
def T : Vector UInt32 64 :=
  #v[0xd76aa478, 0xe8c7b756, 0x242070db, 0xc1bdceee, 0xf57c0faf, 0x4787c62a, 0xa8304613, 0xfd469501,
    0x698098d8, 0x8b44f7af, 0xffff5bb1, 0x895cd7be, 0x6b901122, 0xfd987193, 0xa679438e, 0x49b40821,
    0xf61e2562, 0xc040b340, 0x265e5a51, 0xe9b6c7aa, 0xd62f105d, 0x02441453, 0xd8a1e681, 0xe7d3fbc8,
    0x21e1cde6, 0xc33707d6, 0xf4d50d87, 0x455a14ed, 0xa9e3e905, 0xfcefa3f8, 0x676f02d9, 0x8d2a4c8a,
    0xfffa3942, 0x8771f681, 0x6d9d6122, 0xfde5380c, 0xa4beea44, 0x4bdecfa9, 0xf6bb4b60, 0xbebfbc70,
    0x289b7ec6, 0xeaa127fa, 0xd4ef3085, 0x04881d05, 0xd9d4d039, 0xe6db99e5, 0x1fa27cf8, 0xc4ac5665,
    0xf4292244, 0x432aff97, 0xab9423a7, 0xfc93a039, 0x655b59c3, 0x8f0ccc92, 0xffeff47d, 0x85845dd1,
    0x6fa87e4f, 0xfe2ce6e0, 0xa3014314, 0x4e0811a1, 0xf7537e82, 0xbd3af235, 0x2ad7d2bb, 0xeb86d391]

def rotate (x : UInt32) (s : Nat) : UInt32 := ⟨x.toBitVec.rotateLeft s⟩

/-- A step computes one register anew, and the registers change their places. -/
def step (x : Nat → UInt32) (r : Regs) (i : Nat) : Regs :=
  ⟨r.d, r.b + rotate (r.a + (f i r.b r.c r.d + x (k i) + T.getD i 0)) (s i), r.b, r.c⟩

def rounds (x : Nat → UInt32) (count : Nat) (r : Regs) : Regs := (List.range count).foldl (step x) r

/-- What a block does with the registers. -/
def compress (r : Regs) (block : Bytes) : Regs := (rounds (word block) 64 r).add r

end Rfc

/-! ### The steps of the source -/

def F (x y z : UInt32) : UInt32 := z ^^^ (x &&& (y ^^^ z))
def G (x y z : UInt32) : UInt32 := y ^^^ (z &&& (x ^^^ y))
def H (x y z : UInt32) : UInt32 := (x ^^^ y) ^^^ z
def H2 (x y z : UInt32) : UInt32 := x ^^^ (y ^^^ z)
def I (x y z : UInt32) : UInt32 := y ^^^ (x ||| ~~~z)

/-- The basic function that a `STEP` names. -/
inductive Basic
  | F | G | H | H2 | I
  deriving DecidableEq

def Basic.eval : Basic → UInt32 → UInt32 → UInt32 → UInt32
  | F => Md5.F
  | G => Md5.G
  | H => Md5.H
  | H2 => Md5.H2
  | I => Md5.I

/-- `STEP`: what the first of the four registers becomes. -/
def step (f : UInt32 → UInt32 → UInt32 → UInt32) (a b c d x t s : UInt32) : UInt32 :=
  let a := a + (f b c d + x + t)
  let a := a <<< s ||| (a &&& 0xffffffff) >>> (32 - s)
  a + b

/-- The order in which a `STEP` names the registers. -/
inductive Order
  | abcd | dabc | cdab | bcda
  deriving DecidableEq

def Regs.step (f : UInt32 → UInt32 → UInt32 → UInt32) (order : Order) (x t s : UInt32) (r : Regs) : Regs :=
  match order with
  | .abcd => { r with a := Md5.step f r.a r.b r.c r.d x t s }
  | .dabc => { r with d := Md5.step f r.d r.a r.b r.c x t s }
  | .cdab => { r with c := Md5.step f r.c r.d r.a r.b x t s }
  | .bcda => { r with b := Md5.step f r.b r.c r.d r.a x t s }

/-- `SET(n)` or `GET(n)` -/
inductive Access
  | set (n : Fin 16)
  | get (n : Fin 16)
  deriving DecidableEq

/-- What the source is compiled for. -/
structure Target where
  /-- the width of an `unsigned long` -/
  longBits : Nat
  /-- one of the architectures of the `#if` in front of `SET` -/
  unaligned : Bool
  wide : 32 ≤ longBits

/-- The registers and `ctx->block`. -/
structure Machine where
  regs : Regs
  block : Vector UInt32 16

/-- What `SET(n)` or `GET(n)` leaves behind, and its value. -/
def Machine.access (t : Target) (ptr : Bytes) (m : Machine) : Access → Machine × UInt32
  | .set n =>
    if t.unaligned then (m, word ptr n)
    else
      let block := m.block.set n (word ptr n)
      ({ m with block := block }, block[n])
  | .get n => if t.unaligned then (m, word ptr n) else (m, m.block[n])

/-- The arguments of a `STEP`. -/
structure Row where
  f : Basic
  order : Order
  x : Access
  t : UInt32
  s : UInt32

def Machine.exec (t : Target) (ptr : Bytes) (m : Machine) (row : Row) : Machine :=
  let (m, x) := m.access t ptr row.x
  { m with regs := m.regs.step row.f.eval row.order x row.t row.s }

/-- The four rounds of `body`. -/
def rows : List Row :=
  [⟨.F, .abcd, .set 0, 0xd76aa478, 7⟩, ⟨.F, .dabc, .set 1, 0xe8c7b756, 12⟩,
   ⟨.F, .cdab, .set 2, 0x242070db, 17⟩, ⟨.F, .bcda, .set 3, 0xc1bdceee, 22⟩,
   ⟨.F, .abcd, .set 4, 0xf57c0faf, 7⟩, ⟨.F, .dabc, .set 5, 0x4787c62a, 12⟩,
   ⟨.F, .cdab, .set 6, 0xa8304613, 17⟩, ⟨.F, .bcda, .set 7, 0xfd469501, 22⟩,
   ⟨.F, .abcd, .set 8, 0x698098d8, 7⟩, ⟨.F, .dabc, .set 9, 0x8b44f7af, 12⟩,
   ⟨.F, .cdab, .set 10, 0xffff5bb1, 17⟩, ⟨.F, .bcda, .set 11, 0x895cd7be, 22⟩,
   ⟨.F, .abcd, .set 12, 0x6b901122, 7⟩, ⟨.F, .dabc, .set 13, 0xfd987193, 12⟩,
   ⟨.F, .cdab, .set 14, 0xa679438e, 17⟩, ⟨.F, .bcda, .set 15, 0x49b40821, 22⟩,
   ⟨.G, .abcd, .get 1, 0xf61e2562, 5⟩, ⟨.G, .dabc, .get 6, 0xc040b340, 9⟩,
   ⟨.G, .cdab, .get 11, 0x265e5a51, 14⟩, ⟨.G, .bcda, .get 0, 0xe9b6c7aa, 20⟩,
   ⟨.G, .abcd, .get 5, 0xd62f105d, 5⟩, ⟨.G, .dabc, .get 10, 0x02441453, 9⟩,
   ⟨.G, .cdab, .get 15, 0xd8a1e681, 14⟩, ⟨.G, .bcda, .get 4, 0xe7d3fbc8, 20⟩,
   ⟨.G, .abcd, .get 9, 0x21e1cde6, 5⟩, ⟨.G, .dabc, .get 14, 0xc33707d6, 9⟩,
   ⟨.G, .cdab, .get 3, 0xf4d50d87, 14⟩, ⟨.G, .bcda, .get 8, 0x455a14ed, 20⟩,
   ⟨.G, .abcd, .get 13, 0xa9e3e905, 5⟩, ⟨.G, .dabc, .get 2, 0xfcefa3f8, 9⟩,
   ⟨.G, .cdab, .get 7, 0x676f02d9, 14⟩, ⟨.G, .bcda, .get 12, 0x8d2a4c8a, 20⟩,
   ⟨.H, .abcd, .get 5, 0xfffa3942, 4⟩, ⟨.H2, .dabc, .get 8, 0x8771f681, 11⟩,
   ⟨.H, .cdab, .get 11, 0x6d9d6122, 16⟩, ⟨.H2, .bcda, .get 14, 0xfde5380c, 23⟩,
   ⟨.H, .abcd, .get 1, 0xa4beea44, 4⟩, ⟨.H2, .dabc, .get 4, 0x4bdecfa9, 11⟩,
   ⟨.H, .cdab, .get 7, 0xf6bb4b60, 16⟩, ⟨.H2, .bcda, .get 10, 0xbebfbc70, 23⟩,
   ⟨.H, .abcd, .get 13, 0x289b7ec6, 4⟩, ⟨.H2, .dabc, .get 0, 0xeaa127fa, 11⟩,
   ⟨.H, .cdab, .get 3, 0xd4ef3085, 16⟩, ⟨.H2, .bcda, .get 6, 0x04881d05, 23⟩,
   ⟨.H, .abcd, .get 9, 0xd9d4d039, 4⟩, ⟨.H2, .dabc, .get 12, 0xe6db99e5, 11⟩,
   ⟨.H, .cdab, .get 15, 0x1fa27cf8, 16⟩, ⟨.H2, .bcda, .get 2, 0xc4ac5665, 23⟩,
   ⟨.I, .abcd, .get 0, 0xf4292244, 6⟩, ⟨.I, .dabc, .get 7, 0x432aff97, 10⟩,
   ⟨.I, .cdab, .get 14, 0xab9423a7, 15⟩, ⟨.I, .bcda, .get 5, 0xfc93a039, 21⟩,
   ⟨.I, .abcd, .get 12, 0x655b59c3, 6⟩, ⟨.I, .dabc, .get 3, 0x8f0ccc92, 10⟩,
   ⟨.I, .cdab, .get 10, 0xffeff47d, 15⟩, ⟨.I, .bcda, .get 1, 0x85845dd1, 21⟩,
   ⟨.I, .abcd, .get 8, 0x6fa87e4f, 6⟩, ⟨.I, .dabc, .get 15, 0xfe2ce6e0, 10⟩,
   ⟨.I, .cdab, .get 6, 0xa3014314, 15⟩, ⟨.I, .bcda, .get 13, 0x4e0811a1, 21⟩,
   ⟨.I, .abcd, .get 4, 0xf7537e82, 6⟩, ⟨.I, .dabc, .get 11, 0xbd3af235, 10⟩,
   ⟨.I, .cdab, .get 2, 0x2ad7d2bb, 15⟩, ⟨.I, .bcda, .get 9, 0xeb86d391, 21⟩]

/-- One pass of the loop of `body`. -/
def Machine.transform (t : Target) (ptr : Bytes) (m : Machine) : Machine :=
  let saved := m.regs
  let m := rows.foldl (Machine.exec t ptr) m
  { m with regs := m.regs.add saved }

/-! ### The functions -/

theorem F_eq (x y z : UInt32) : F x y z = (x &&& y) ||| (~~~x &&& z) := by
  apply UInt32.toBitVec_inj.1
  ext i hi
  simp only [F, UInt32.toBitVec_xor, UInt32.toBitVec_and, UInt32.toBitVec_or, UInt32.toBitVec_not, BitVec.getElem_xor,
    BitVec.getElem_and, BitVec.getElem_or, BitVec.getElem_not]
  cases x.toBitVec[i] <;> cases y.toBitVec[i] <;> cases z.toBitVec[i] <;> rfl

theorem G_eq (x y z : UInt32) : G x y z = (x &&& z) ||| (y &&& ~~~z) := by
  apply UInt32.toBitVec_inj.1
  ext i hi
  simp only [G, UInt32.toBitVec_xor, UInt32.toBitVec_and, UInt32.toBitVec_or, UInt32.toBitVec_not, BitVec.getElem_xor,
    BitVec.getElem_and, BitVec.getElem_or, BitVec.getElem_not]
  cases x.toBitVec[i] <;> cases y.toBitVec[i] <;> cases z.toBitVec[i] <;> rfl

/-- The two shifts of a `STEP` are a rotation. -/
theorem rotate_eq (a s : UInt32) (hpos : 0 < s.toNat) (hlt : s.toNat < 32) :
    a <<< s ||| (a &&& 0xffffffff) >>> (32 - s) = Rfc.rotate a s.toNat := by
  have hmask : a &&& 0xffffffff = a := UInt32.and_neg_one
  have hleft : (s.toBitVec % 32).toNat = s.toNat := Nat.mod_eq_of_lt hlt
  have hsub : (32 - s).toNat = 32 - s.toNat := UInt32.toNat_sub_of_le _ _ (UInt32.le_iff_toNat_le.2 hlt.le)
  have hright : ((32 - s).toBitVec % 32).toNat = 32 - s.toNat := by
    rw [← hsub]
    exact Nat.mod_eq_of_lt (show (32 - s).toNat < 32 by omega)
  apply UInt32.toBitVec_inj.1
  rw [Rfc.rotate, hmask, BitVec.rotateLeft_def, Nat.mod_eq_of_lt hlt, UInt32.toBitVec_or, UInt32.toBitVec_shiftLeft,
    UInt32.toBitVec_shiftRight, BitVec.shiftLeft_eq', BitVec.ushiftRight_eq', hleft, hright]

/-! ### The rows -/

/-- The function of a step. -/
def Basic.at (i : Nat) : Basic :=
  if i < 16 then F else if i < 32 then G else if i < 48 then (if i % 2 = 0 then H else H2) else I

theorem eval_at (i : Nat) (x y z : UInt32) : (Basic.at i).eval x y z = Rfc.f i x y z := by
  unfold Basic.at Rfc.f
  split_ifs
  · exact F_eq x y z
  · exact G_eq x y z
  · rfl
  · exact (UInt32.xor_assoc x y z).symm
  · rfl

/-- The order of the registers comes round after four steps. -/
def Order.at (i : Nat) : Order :=
  match i % 4 with
  | 0 => abcd
  | 1 => dabc
  | 2 => cdab
  | _ => bcda

def Order.next : Order → Order
  | abcd => dabc
  | dabc => cdab
  | cdab => bcda
  | bcda => abcd

theorem at_succ (i : Nat) : Order.at (i + 1) = (Order.at i).next := by
  have hlt : i % 4 < 4 := Nat.mod_lt _ (by omega)
  have hnext : (i + 1) % 4 = (i % 4 + 1) % 4 := by omega
  unfold Order.at
  rw [hnext]
  generalize i % 4 = r at hlt
  interval_cases r <;> rfl

/-- A word is set in the first round, and got in the others. -/
def Access.at (i : Nat) : Access := if i < 16 then set (Fin.ofNat 16 i) else get (Fin.ofNat 16 (Rfc.k i))

/-- The row has the numbers of a step of the standard. -/
def Row.Standard (i : Nat) (row : Row) : Prop :=
  row.f = .at i ∧ row.order = .at i ∧ row.x = .at i ∧ row.t = Rfc.T.getD i 0 ∧
    row.s.toNat = Rfc.s i ∧ 0 < row.s.toNat ∧ row.s.toNat < 32

instance (i : Nat) (row : Row) : Decidable (row.Standard i) :=
  inferInstanceAs (Decidable (row.f = .at i ∧ row.order = .at i ∧ row.x = .at i ∧ row.t = Rfc.T.getD i 0 ∧
    row.s.toNat = Rfc.s i ∧ 0 < row.s.toNat ∧ row.s.toNat < 32))

theorem standard_rows : ∀ i : Fin rows.length, rows[i].Standard i := by decide

/-! ### A step -/

/-- The registers in the places that they have in the standard. -/
def Order.view : Order → Regs → Regs
  | abcd, r => r
  | dabc, r => ⟨r.d, r.a, r.b, r.c⟩
  | cdab, r => ⟨r.c, r.d, r.a, r.b⟩
  | bcda, r => ⟨r.b, r.c, r.d, r.a⟩

/-- One register is computed, and the others are found one place further. -/
theorem view_step (f : UInt32 → UInt32 → UInt32 → UInt32) (order : Order) (x t s : UInt32) (r : Regs) :
    order.next.view (r.step f order x t s) =
      ⟨(order.view r).d, step f (order.view r).a (order.view r).b (order.view r).c (order.view r).d x t s,
        (order.view r).b, (order.view r).c⟩ := by
  cases order <;> rfl

/-- The first words of the block are in the copy, where one is made. -/
def Loaded (t : Target) (ptr : Bytes) (m : Machine) (count : Nat) : Prop :=
  t.unaligned = false → ∀ n : Fin 16, n.val < count → m.block[n] = word ptr n

theorem k_lt {i : Nat} : Rfc.k i < 16 := by
  unfold Rfc.k
  split_ifs with hfirst
  · exact hfirst
  all_goals exact Nat.mod_lt _ (by omega)

theorem regs_access (t : Target) (ptr : Bytes) (m : Machine) (x : Access) : (m.access t ptr x).1.regs = m.regs := by
  cases x <;> simp only [Machine.access] <;> split <;> rfl

/-- An access reads the word of the standard, and the first sixteen copy one word each. -/
theorem access_at {t : Target} {ptr : Bytes} {m : Machine} {i : Nat} (h : Loaded t ptr m (min i 16)) :
    (m.access t ptr (.at i)).2 = word ptr (Rfc.k i) ∧ Loaded t ptr (m.access t ptr (.at i)).1 (min (i + 1) 16) := by
  by_cases hfirst : i < 16
  · have hk : Rfc.k i = i := by rw [Rfc.k, if_pos hfirst]
    have hn : ((Fin.ofNat 16 i : Fin 16) : Nat) = i := Nat.mod_eq_of_lt hfirst
    rw [Access.at, if_pos hfirst, hk]
    simp only [Machine.access]
    split
    · rename_i hunaligned
      refine ⟨by rw [hn], fun halign => ?_⟩
      rw [hunaligned] at halign
      contradiction
    · refine ⟨by simp [Nat.mod_eq_of_lt hfirst], fun halign n hlt => ?_⟩
      by_cases hlast : n.val = i
      · simp [hlast, Nat.mod_eq_of_lt hfirst]
      · have hother := h halign n (by omega)
        simp only [Fin.getElem_fin] at hother ⊢
        rw [Vector.getElem_set_ne _ _ (by omega)]
        exact hother
  · have hn : ((Fin.ofNat 16 (Rfc.k i) : Fin 16) : Nat) = Rfc.k i := Nat.mod_eq_of_lt k_lt
    have hmin : min (i + 1) 16 = min i 16 := by omega
    rw [Access.at, if_neg hfirst, hmin]
    simp only [Machine.access]
    split
    · exact ⟨by rw [hn], h⟩
    · rename_i halign
      have hall := h (by simpa using halign) (Fin.ofNat 16 (Rfc.k i)) (by rw [hn]; have := @k_lt i; omega)
      exact ⟨by rw [hall, hn], h⟩

/-- A row of the source is a step of the standard. -/
theorem exec_standard {t : Target} {ptr : Bytes} {m : Machine} {i : Nat} {row : Row} (hrow : row.Standard i)
    (h : Loaded t ptr m (min i 16)) :
    (Order.at (i + 1)).view (m.exec t ptr row).regs = Rfc.step (word ptr) ((Order.at i).view m.regs) i ∧
      Loaded t ptr (m.exec t ptr row) (min (i + 1) 16) := by
  obtain ⟨hf, horder, hx, ht, hs, hpos, hlt⟩ := hrow
  obtain ⟨hword, hloaded⟩ := access_at h
  constructor
  · simp only [Machine.exec, regs_access]
    rw [hx, hword, horder, hf, ht, at_succ, view_step, Rfc.step]
    simp only [step, eval_at]
    rw [rotate_eq _ _ hpos hlt, hs, UInt32.add_comm (Rfc.rotate _ _), UInt32.add_assoc (Rfc.f _ _ _ _)]
  · intro halign n hn
    simp only [Machine.exec, hx]
    exact hloaded halign n hn

/-! ### A block -/

/-- The first rows of the source are the first steps of the standard. -/
theorem foldl_rows (t : Target) (ptr : Bytes) (m : Machine) {i : Nat} (hi : i ≤ rows.length) :
    (Order.at i).view ((rows.take i).foldl (Machine.exec t ptr) m).regs = Rfc.rounds (word ptr) i m.regs ∧
      Loaded t ptr ((rows.take i).foldl (Machine.exec t ptr) m) (min i 16) := by
  induction i with
  | zero => exact ⟨rfl, fun _ n hn => absurd hn (by simp)⟩
  | succ i ih =>
    obtain ⟨hregs, hloaded⟩ := ih (by omega)
    have hlt : i < rows.length := hi
    have hrow : rows[i].Standard i := standard_rows ⟨i, hlt⟩
    obtain ⟨hstep, hnext⟩ := exec_standard hrow hloaded
    rw [List.take_succ_eq_append_getElem hi, List.foldl_append, List.foldl_cons, List.foldl_nil, Rfc.rounds,
      List.range_succ, List.foldl_append, List.foldl_cons, List.foldl_nil]
    refine ⟨?_, hnext⟩
    rw [hstep, hregs, Rfc.rounds]

/-- On every target a pass of the loop is the compression of the standard. -/
theorem transform_eq (t : Target) (ptr : Bytes) (m : Machine) :
    (m.transform t ptr).regs = Rfc.compress m.regs ptr := by
  have hall : rows.take 64 = rows := List.take_of_length_le (by decide)
  have hregs := (foldl_rows t ptr m (i := 64) (by decide)).1
  rw [hall] at hregs
  show (rows.foldl (Machine.exec t ptr) m).regs.add m.regs = _
  rw [Rfc.compress, ← hregs]
  rfl

end IopHal.Md5
