import IopHal.Bytes
import IopHal.Library.Numbered

/-!
# The certificates of the ESP8266

`preBuildCertificates` turns a CSV file into a header with certificates.  It collects the names and the PEM cells of all rows in
two lists, drops the first of each, and converts the PEM cells.  `generate_csv` says which files it gets through and
what the header declares.

The file is here as its rows.  The download, the cached header and the texts around the declarations are left out.
-/

namespace IopHal

/-- A row of the CSV file: the texts of its cells. -/
abbrev Row := List Bytes

/-- What the tools behind the generator make of a text. -/
structure Tools where
  /-- `openssl x509 -inform PEM -outform DER`: the file it writes, if it writes one -/
  der : Bytes → Option Bytes
  /-- `Certificate.load(bytestr).issuer.dump()` -/
  issuer : Bytes → Bytes
  sha256 : Bytes → Vector UInt8 32

/-- `idxHash` -/
def Tools.idxHash (t : Tools) (bytestr : Bytes) : Bytes := (t.sha256 (t.issuer bytestr)).toList

inductive PyError
  | indexError
  deriving DecidableEq

/-- A subscript that may be out of range. -/
def subscript {α : Type} : Option α → Except PyError α
  | none => .error .indexError
  | some a => .ok a

/-- `del l[0]` -/
def delFirst {α : Type} : List α → Except PyError (List α)
  | [] => .error .indexError
  | _ :: l => .ok l

/-! ### The columns -/

/-- `item.startswith(...)` -/
def isPem (item : Bytes) : Bool := (ascii "'-----BEGIN CERTIFICATE-----").isPrefixOf item

/-- `row[0]+":"+row[1]+":"+row[2]` -/
def rowName : Row → Option Bytes
  | a :: b :: c :: _ => some (a ++ [COLON] ++ b ++ [COLON] ++ c)
  | _ => none

structure Columns where
  names : List Bytes
  pems : List Bytes

def readRow (s : Columns) (row : Row) : Except PyError Columns := do
  let name ← subscript (rowName row)
  return ⟨s.names ++ [name], s.pems ++ row.filter isPem⟩

def readRows (s : Columns) : List Row → Except PyError Columns
  | [] => .ok s
  | row :: rows => do
    let s ← readRow s row
    readRows s rows

/-! ### The declarations -/

/-- `pems[i].replace("'", "")` -/
def unquote (pem : Bytes) : Bytes := pem.filter fun b => b ≠ 39

/-- What `re.sub` leaves of a name: the characters of `string.printable`. -/
def printable (name : Bytes) : Bytes := name.filter fun b => (9 ≤ b ∧ b ≤ 13) ∨ (32 ≤ b ∧ b ≤ 126)

/-- The variables of the loop over the PEM cells, and what it has written: the comments, the arrays `cert_0`, `cert_1`, ... and
the arrays `idx_0`, `idx_1`, ... -/
structure Converting where
  idx : Nat
  sizes : List Nat
  comments : List Bytes
  certs : List (Nat × Bytes)
  idxs : List (Nat × Bytes)

def convert (t : Tools) (names : List Bytes) (s : Converting) (i : Nat) (pem : Bytes) : Except PyError Converting := do
  let name ← subscript names[i]?
  let s := { s with comments := s.comments ++ [printable name] }
  match t.der (unquote pem) with
  | none => return s
  | some bytestr =>
    return { s with
      idx := s.idx + 1
      sizes := s.sizes ++ [bytestr.length]
      certs := s.certs ++ [(s.idx, bytestr)]
      idxs := s.idxs ++ [(s.idx, t.idxHash bytestr)] }

/-- The loop from the cell `i` on. -/
def convertAll (t : Tools) (names : List Bytes) (s : Converting) (i : Nat) : List Bytes → Except PyError Converting
  | [] => .ok s
  | pem :: pems => do
    let s ← convert t names s i pem
    convertAll t names s (i + 1) pems

/-- The header.  The tables of arrays have the numbers of their names. -/
structure Generated where
  comments : List Bytes
  certs : List (Nat × Bytes)
  idxs : List (Nat × Bytes)
  numberOfCertificates : Nat
  certSizes : List Nat
  certificates : List Nat
  indexes : List Nat

def writeTables (s : Converting) : Except PyError Generated := do
  let certSizes ← subscript ((List.range s.idx).mapM fun i => s.sizes[i]?)
  return ⟨s.comments, s.certs, s.idxs, s.idx, certSizes, List.range s.idx, List.range s.idx⟩

def generate (t : Tools) (rows : List Row) : Except PyError Generated := do
  let s ← readRows ⟨[], []⟩ rows
  let names ← delFirst s.names
  let pems ← delFirst s.pems
  let s ← convertAll t names ⟨0, [], [], [], []⟩ 0 pems
  writeTables s

/-! ### What is written -/

theorem readRows_eq (s : Columns) (rows : List Row) :
    readRows s rows =
      (subscript (rows.mapM rowName)).map fun names => ⟨s.names ++ names, s.pems ++ rows.flatten.filter isPem⟩ := by
  induction rows generalizing s with
  | nil =>
    rw [List.mapM_nil, List.flatten_nil, List.filter_nil]
    simp [readRows, subscript, Except.map]
  | cons row rows ih =>
    rw [readRows, readRow, List.mapM_cons]
    cases rowName row with
    | none => rfl
    | some name =>
      show readRows ⟨s.names ++ [name], s.pems ++ row.filter isPem⟩ rows = _
      rw [ih]
      cases rows.mapM rowName with
      | none => rfl
      | some names => simp [subscript, Except.map]

/-- The loop when it has written some comments and converted these certificates: they are numbered in order. -/
def Converting.of (t : Tools) (comments ders : List Bytes) : Converting where
  idx := ders.length
  sizes := ders.map List.length
  comments := comments
  certs := Numbered.declare 0 ders
  idxs := Numbered.declare 0 (ders.map t.idxHash)

/-- The certificates in some PEM cells. -/
def Tools.ders (t : Tools) (pems : List Bytes) : List Bytes := pems.filterMap fun pem => t.der (unquote pem)

theorem convert_eq (t : Tools) (names comments ders : List Bytes) (i : Nat) (pem : Bytes) :
    convert t names (.of t comments ders) i pem =
      (subscript names[i]?).map fun name => .of t (comments ++ [printable name]) (ders ++ t.ders [pem]) := by
  unfold convert Tools.ders
  cases names[i]? with
  | none => rfl
  | some name =>
    cases hder : t.der (unquote pem) with
    | none =>
      have hnone : ([pem].filterMap fun pem => t.der (unquote pem)) = [] := by simp [hder]
      rw [hnone, List.append_nil]
      rfl
    | some bytestr =>
      have hsome : ([pem].filterMap fun pem => t.der (unquote pem)) = [bytestr] := by simp [hder]
      rw [hsome]
      show Except.ok _ = Except.ok _
      congr 1
      simp [Converting.of, Numbered.declare_append, Numbered.declare]

/-- There have to be as many names as PEM cells.  The comments are the names, whichever rows the cells are from. -/
theorem convertAll_eq (t : Tools) (names comments ders pems : List Bytes) {i : Nat} (hi : i ≤ names.length) :
    convertAll t names (.of t comments ders) i pems =
      if i + pems.length ≤ names.length then
        .ok (.of t (comments ++ ((names.drop i).take pems.length).map printable) (ders ++ t.ders pems))
      else .error .indexError := by
  induction pems generalizing comments ders i with
  | nil =>
    rw [List.length_nil, Nat.add_zero, if_pos hi]
    simp [convertAll, Tools.ders]
  | cons pem pems ih =>
    rw [convertAll, convert_eq, List.length_cons]
    by_cases hlt : i < names.length
    · have hname : names[i]? = some names[i] := List.getElem?_eq_getElem hlt
      have hdrop : names.drop i = names[i] :: names.drop (i + 1) := List.drop_eq_getElem_cons hlt
      have hders : t.ders (pem :: pems) = t.ders [pem] ++ t.ders pems := List.filterMap_append (l := [pem]) ..
      rw [hname, hdrop, hders, List.take_succ_cons, List.map_cons, List.append_cons, ← List.append_assoc,
        Nat.add_comm pems.length, ← Nat.add_assoc]
      exact ih _ _ hlt
    · have hname : names[i]? = none := List.getElem?_eq_none (Nat.le_of_not_lt hlt)
      rw [hname, if_neg (by omega)]
      rfl

/-- The header for these certificates. -/
def Generated.of (t : Tools) (comments ders : List Bytes) : Generated where
  comments := comments
  certs := Numbered.declare 0 ders
  idxs := Numbered.declare 0 (ders.map t.idxHash)
  numberOfCertificates := ders.length
  certSizes := ders.map List.length
  certificates := List.range ders.length
  indexes := List.range ders.length

theorem writeTables_of (t : Tools) (comments ders : List Bytes) :
    writeTables (.of t comments ders) = .ok (.of t comments ders) := by
  have hsizes : (List.range ders.length).mapM (fun i => (ders.map List.length)[i]?) = some (ders.map List.length) := by
    have hall := Numbered.mapM_range (l := ders.map List.length) (f := fun i => (ders.map List.length)[i]?) fun _ _ => rfl
    rwa [List.length_map] at hall
  unfold writeTables
  show (subscript ((List.range ders.length).mapM fun i => (ders.map List.length)[i]?)).bind _ = _
  rw [hsizes]
  rfl

/-- A file with a header row, in which no cell is a certificate. -/
structure Report where
  header : Row
  rows : List Row
  header_pem : ∀ item ∈ header, isPem item = false

namespace Report

def csv (r : Report) : List Row := r.header :: r.rows

/-- The PEM cells of the data rows. -/
def pems (r : Report) : List Bytes := r.rows.flatten.filter isPem

/-- The certificates that the file has. -/
def ders (r : Report) (t : Tools) : List Bytes := t.ders r.pems

/-- The certificates that the generator keeps: not the one of the first PEM cell. -/
def kept (r : Report) (t : Tools) : List Bytes := t.ders r.pems.tail

/-- The names that it writes as comments. -/
def names (r : Report) : List Bytes := (r.rows.filterMap rowName).take r.pems.tail.length

/-- What the generator needs to get through: three cells in every row, a PEM cell, and not more of them than there are rows
with the header. -/
structure Readable (r : Report) : Prop where
  columns : ∀ row ∈ r.csv, 3 ≤ row.length
  pem : r.pems ≠ []
  names : r.pems.tail.length ≤ r.rows.length

end Report

theorem rowName_eq_none_iff (row : Row) : rowName row = none ↔ ¬ 3 ≤ row.length := by
  rcases row with _ | ⟨a, _ | ⟨b, _ | ⟨c, row⟩⟩⟩ <;> simp [rowName]

theorem exists_rowName {row : Row} (h : 3 ≤ row.length) : ∃ name, rowName row = some name :=
  Option.ne_none_iff_exists'.1 fun hnone => (rowName_eq_none_iff row).1 hnone h

theorem mapM_rowName (rows : List Row) :
    rows.mapM rowName = if ∀ row ∈ rows, 3 ≤ row.length then some (rows.filterMap rowName) else none := by
  induction rows with
  | nil => rfl
  | cons row rows ih =>
    rw [List.mapM_cons, ih]
    by_cases hrow : 3 ≤ row.length
    · obtain ⟨name, hname⟩ := exists_rowName hrow
      simp only [List.forall_mem_cons, hrow, true_and]
      rw [hname, List.filterMap_cons_some hname]
      split <;> rfl
    · have hall : ¬ ∀ other ∈ row :: rows, 3 ≤ other.length := fun h => hrow (h row List.mem_cons_self)
      rw [(rowName_eq_none_iff row).2 hrow, if_neg hall]
      rfl

theorem length_filterMap_rowName {rows : List Row} (h : ∀ row ∈ rows, 3 ≤ row.length) :
    (rows.filterMap rowName).length = rows.length := by
  induction rows with
  | nil => rfl
  | cons row rows ih =>
    rw [List.forall_mem_cons] at h
    obtain ⟨name, hname⟩ := exists_rowName h.1
    rw [List.filterMap_cons_some hname, List.length_cons, List.length_cons, ih h.2]

/-- The two columns before the first of each is dropped: the header row has a name and no PEM cell. -/
theorem readRows_csv (r : Report) :
    readRows ⟨[], []⟩ r.csv =
      if ∀ row ∈ r.csv, 3 ≤ row.length then .ok ⟨r.csv.filterMap rowName, r.pems⟩ else .error .indexError := by
  have hheader : r.header.filter isPem = [] := by
    rw [List.filter_eq_nil_iff]
    intro item hitem
    rw [r.header_pem item hitem]
    decide
  have hpems : r.csv.flatten.filter isPem = r.pems := by
    rw [Report.csv, List.flatten_cons, List.filter_append, hheader, List.nil_append, Report.pems]
  rw [readRows_eq, mapM_rowName, hpems]
  split <;> rfl

/-- The generator gets through exactly these files, and the header has the certificates of all PEM cells but the first. -/
theorem generate_csv (t : Tools) (r : Report) (g : Generated) :
    generate t r.csv = .ok g ↔ r.Readable ∧ g = .of t (r.names.map printable) (r.kept t) := by
  unfold generate
  rw [readRows_csv]
  by_cases hcolumns : ∀ row ∈ r.csv, 3 ≤ row.length
  · rw [if_pos hcolumns]
    obtain ⟨name, hname⟩ := exists_rowName (hcolumns r.header List.mem_cons_self)
    have hnames : r.csv.filterMap rowName = name :: r.rows.filterMap rowName := List.filterMap_cons_some hname
    have hlength : (r.rows.filterMap rowName).length = r.rows.length :=
      length_filterMap_rowName fun row hrow => hcolumns row (List.mem_cons_of_mem _ hrow)
    rw [hnames]
    cases hpems : r.pems with
    | nil =>
      refine iff_of_false (fun h => ?_) fun h => h.1.pem hpems
      contradiction
    | cons pem pems =>
      show (convertAll t (r.rows.filterMap rowName) (.of t [] []) 0 pems).bind writeTables = _ ↔ _
      rw [convertAll_eq t _ _ _ _ (Nat.zero_le _), Nat.zero_add, hlength, List.drop_zero, List.nil_append, List.nil_append]
      have htail : r.pems.tail = pems := by rw [hpems, List.tail_cons]
      by_cases hle : pems.length ≤ r.rows.length
      · rw [if_pos hle]
        show writeTables _ = _ ↔ _
        rw [writeTables_of, Report.names, Report.kept, htail, Except.ok.injEq]
        have hreadable : r.Readable := ⟨hcolumns, by simp [hpems], by rwa [htail]⟩
        exact ⟨fun h => ⟨hreadable, h.symm⟩, fun h => h.2.symm⟩
      · rw [if_neg hle]
        refine iff_of_false (fun h => ?_) fun h => hle (htail ▸ h.1.names)
        contradiction
  · rw [if_neg hcolumns]
    refine iff_of_false (fun h => ?_) fun h => hcolumns h.1.columns
    contradiction

end IopHal
