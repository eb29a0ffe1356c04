import PostfixEdm.Base.Text
import Mathlib.Logic.Function.Basic

/-!
# `CConfigFileReader`

* `CConfigFileReader.construct` : the constructor, with `_LoadFile`, `_ParseLine` and `_TrimSpace`;
  `CConfigFileReader.getConfigName` : `GetConfigName`;
* `ConfigGrammar.lookup` : the grammar of the lines of a file, whatever their length; `ConfigGrammar.pieces` : what
  `fgets` makes of a line;
* `CConfigFileReader.getConfigName_eq` : the reader follows the grammar over the pieces of the lines;
* `ConfigGrammar.Fits` : a line that the buffer holds, as far as it is a definition;
* `CConfigFileReader.getConfigName_of_fits` : the reader follows the grammar of the lines while they fit; a definition
  that is cut in its value is read short.
-/

namespace PostfixEdm

/-- A file without a NUL. -/
structure TextFile where
  bytes : List UInt8
  nul : 0 ∉ bytes

/-- `fgets` of at most `n` bytes: what it stores, and the rest of the file. -/
def fgets : Nat → List UInt8 → List UInt8 × List UInt8
  | 0, file => ([], file)
  | _ + 1, [] => ([], [])
  | n + 1, b :: file =>
    if b = 10 then ([b], file)
    else
      let (buf, rest) := fgets n file
      (b :: buf, rest)

theorem length_fgets_lt {n : Nat} {file : List UInt8} (hn : 0 < n) (hfile : file ≠ []) :
    (fgets n file).2.length < file.length := by
  have hle : ∀ (n : Nat) (file : List UInt8), (fgets n file).2.length ≤ file.length := by
    intro n file
    fun_induction fgets n file with
    | case1 | case2 | case3 => simp
    | case4 n b file hb buf rest heq ih =>
      rw [heq] at ih
      exact Nat.le_succ_of_le ih
  cases n with
  | zero => exact absurd hn (Nat.lt_irrefl 0)
  | succ n =>
    cases file with
    | nil => exact absurd rfl hfile
    | cons b file =>
      unfold fgets
      split
      · exact Nat.lt_succ_self _
      · exact Nat.lt_succ_of_le (hle n file)

def isBlank (b : UInt8) : Bool := b = 32 || b = 9

/-- `m_config_map` -/
abbrev ConfigMap := List UInt8 → Option (List UInt8)

namespace ConfigMap

/-- `insert` keeps an entry that is there. -/
def insert (map : ConfigMap) (key value : List UInt8) : ConfigMap :=
  if (map key).isSome then map else Function.update map key (some value)

end ConfigMap

structure CConfigFileReader where
  loadOk : Bool
  configMap : ConfigMap

namespace CConfigFileReader

/-- `_TrimSpace`; `none` is NULL. -/
def trimSpace (name : List UInt8) : Option (List UInt8) :=
  let startPos := name.dropWhile isBlank
  if startPos = [] then none
  else
    let kept := name.rdropWhile isBlank
    let len : Int := kept.length - (name.length - startPos.length)
    if len ≤ 0 then none else some (startPos.take len.toNat)

/-- `_ParseLine` -/
def parseLine (line : List UInt8) (map : ConfigMap) : ConfigMap :=
  if 61 ∈ line then
    let key := trimSpace (line.takeWhile (· ≠ 61))
    let value := trimSpace ((line.dropWhile (· ≠ 61)).drop 1)
    match key, value with
    | some key, some value => map.insert key value
    | _, _ => map
  else map

/-- What the loop of `_LoadFile` does with the buffer. -/
def loadBuf (buf : List UInt8) (map : ConfigMap) : ConfigMap :=
  let buf := if buf.getLast? = some 10 then buf.dropLast else buf
  let buf := buf.takeWhile (· ≠ 35)
  if buf = [] then map else parseLine buf map

/-- The loop of `_LoadFile`, over a `char buf[256]`. -/
def loadLoop (map : ConfigMap) (file : List UInt8) : ConfigMap :=
  if h : file = [] then map
  else
    have := length_fgets_lt (n := 255) (by decide) h
    loadLoop (loadBuf (fgets 255 file).1 map) (fgets 255 file).2
  termination_by file.length

/-- `CConfigFileReader(filename)`; `none` is a file that cannot be opened, and then nothing sets `m_load_ok`. -/
def construct (unset : Bool) : Option TextFile → CConfigFileReader
  | some file => ⟨true, loadLoop (fun _ => none) file.bytes⟩
  | none => ⟨unset, fun _ => none⟩

/-- `GetConfigName`; `none` is NULL. -/
def getConfigName (reader : CConfigFileReader) (name : List UInt8) : Option (List UInt8) :=
  if reader.loadOk then reader.configMap name else none

end CConfigFileReader

/-! ## The grammar -/

namespace ConfigGrammar

def trim (s : List UInt8) : List UInt8 := (s.dropWhile isBlank).rdropWhile isBlank

/-- The definition that a line makes: up to the first `#`, split at the first `=`, with both sides trimmed. -/
def definition (line : List UInt8) : Option (List UInt8 × List UInt8) :=
  let line := line.takeWhile (· ≠ 35)
  let key := trim (line.takeWhile (· ≠ 61))
  let value := trim ((line.dropWhile (· ≠ 61)).drop 1)
  if 61 ∈ line ∧ key ≠ [] ∧ value ≠ [] then some (key, value) else none

def lines (file : List UInt8) : List (List UInt8) := file.splitOn 10

/-- The first definition of `name` among `texts`. -/
def first (texts : List (List UInt8)) (name : List UInt8) : Option (List UInt8) :=
  (texts.filterMap definition).lookup name

/-- What the grammar gives for a file. -/
def lookup (file name : List UInt8) : Option (List UInt8) := first (lines file) name

/-- A line in pieces of 255 bytes; the last one is shorter. -/
def pieces (line : List UInt8) : List (List UInt8) :=
  if line.length < 255 then [line] else line.take 255 :: pieces (line.drop 255)
  termination_by line.length
  decreasing_by rw [List.length_drop]; omega

/-- The line has room in the buffer. If it is longer, no `=` comes behind the buffer, and what does is in a comment, or
the line is no definition, or there are but blanks up to a comment. -/
def Fits (line : List UInt8) : Prop :=
  line.length ≤ 255 ∨ 61 ∉ line.drop 255 ∧
    (35 ∈ line.take 255 ∨ 61 ∉ line.take 255 ∨ ∀ b ∈ (line.drop 255).takeWhile (· ≠ 35), isBlank b)

theorem first_append (texts rest : List (List UInt8)) (name : List UInt8) :
    first (texts ++ rest) name = (first texts name).or (first rest name) := by
  rw [first, first, first, List.filterMap_append, List.lookup_append]

theorem first_cons (line : List UInt8) (rest : List (List UInt8)) (name : List UInt8) :
    first (line :: rest) name = (first [line] name).or (first rest name) := first_append [line] rest name

theorem pieces_short {line : List UInt8} (h : line.length < 255) : pieces line = [line] := by
  rw [pieces, if_pos h]

theorem pieces_long {line : List UInt8} (h : 255 ≤ line.length) :
    pieces line = line.take 255 :: pieces (line.drop 255) := by
  rw [pieces, if_neg (Nat.not_lt.mpr h)]

/-- Blanks at the end are trimmed. -/
theorem trim_append_blanks {s blanks : List UInt8} (h : ∀ b ∈ blanks, isBlank b) : trim (s ++ blanks) = trim s := by
  have hend : blanks.rdropWhile isBlank = [] := List.rdropWhile_eq_nil_iff.mpr h
  rw [trim, trim, List.dropWhile_append]
  split
  · next hnil =>
    rw [List.isEmpty_iff.mp hnil, List.rdropWhile_nil, List.rdropWhile_eq_nil_iff]
    exact fun b hb => h b ((List.dropWhile_sublist _).subset hb)
  · rw [List.rdropWhile, List.reverse_append, List.dropWhile_append_of_pos]
    · rfl
    · exact fun b hb => h b (List.mem_reverse.mp hb)

theorem definition_of_notMem {line : List UInt8} (h : 61 ∉ line) : definition line = none := by
  rw [definition, if_neg]
  exact fun hmem => h ((List.takeWhile_subset _) hmem.1)

/-- Pieces without a `=` define nothing. -/
theorem first_pieces_of_notMem {line : List UInt8} (h : 61 ∉ line) (name : List UInt8) :
    first (pieces line) name = none := by
  induction hn : line.length using Nat.strong_induction_on generalizing line with
  | _ n ih =>
    rcases Nat.lt_or_ge line.length 255 with hlt | hge
    · rw [pieces_short hlt, first, List.filterMap_cons, definition_of_notMem h]
      rfl
    · have htake : 61 ∉ line.take 255 := fun hmem => h (List.mem_of_mem_take hmem)
      have hdrop : 61 ∉ line.drop 255 := fun hmem => h (List.mem_of_mem_drop hmem)
      have hless : (line.drop 255).length < n := by
        rw [List.length_drop]
        omega
      rw [pieces_long hge, first_cons, ih _ hless hdrop rfl, first, List.filterMap_cons, definition_of_notMem htake]
      rfl

/-- Blanks at the end of a definition do not matter, nor do comments. -/
theorem definition_append {line more : List UInt8} (h : 35 ∈ line ∨ ∀ b ∈ more.takeWhile (· ≠ 35), isBlank b)
    (hmore : 61 ∉ more) : definition (line ++ more) = definition line := by
  by_cases hmem : 35 ∈ line
  · have htext : (line ++ more).takeWhile (· ≠ 35) = line.takeWhile (· ≠ 35) := by
      rw [List.takeWhile_append, if_neg]
      intro hlen
      have hall := List.takeWhile_eq_self_iff.mp (List.takeWhile_prefix (· ≠ (35 : UInt8)) |>.eq_of_length hlen)
      exact absurd rfl (of_decide_eq_true (hall 35 hmem))
    rw [definition, definition, htext]
  · have hblank := h.resolve_left hmem
    set blanks := more.takeWhile (· ≠ 35) with hblanks
    have hline : ∀ b ∈ line, decide (b ≠ 35) = true := fun b hb => decide_eq_true fun heq => hmem (heq ▸ hb)
    have hline' : line.takeWhile (· ≠ 35) = line := List.takeWhile_eq_self_iff.mpr hline
    have htext : (line ++ more).takeWhile (· ≠ 35) = line ++ blanks := List.takeWhile_append_of_pos hline
    have hno : 61 ∉ blanks := fun hb => hmore ((List.takeWhile_subset _) hb)
    rw [definition, definition, htext, hline']
    by_cases heq : 61 ∈ line
    · obtain ⟨key, value, rfl, hkey⟩ := List.eq_append_cons_of_mem heq
      have hsplit : ∀ b ∈ key, decide (b ≠ 61) = true := fun b hb => decide_eq_true fun h61 => hkey (h61 ▸ hb)
      have hleft : ∀ rest, (key ++ 61 :: rest).takeWhile (· ≠ 61) = key := fun rest => by
        rw [List.takeWhile_append_of_pos hsplit, List.takeWhile_cons_of_neg (by decide), List.append_nil]
      have hright : ∀ rest, ((key ++ 61 :: rest).dropWhile (· ≠ 61)).drop 1 = rest := fun rest => by
        rw [List.dropWhile_append_of_pos hsplit, List.dropWhile_cons_of_neg (by decide), List.drop_one, List.tail_cons]
      have hmem61 : ∀ rest, 61 ∈ key ++ 61 :: rest := fun rest => List.mem_append_right key List.mem_cons_self
      simp only [List.append_assoc, List.cons_append, hleft, hright, trim_append_blanks hblank, hmem61]
    · have hneither : 61 ∉ line ++ blanks := fun hb => (List.mem_append.mp hb).elim heq hno
      simp only [heq, hneither, false_and, if_false]

/-- The pieces of a line that fits define what the line does. -/
theorem first_pieces {line : List UInt8} (h : Fits line) (name : List UInt8) :
    first (pieces line) name = first [line] name := by
  rcases Nat.lt_or_ge line.length 255 with hlt | hge
  · rw [pieces_short hlt]
  · obtain ⟨hno, hrest⟩ : 61 ∉ line.drop 255 ∧
        (35 ∈ line.take 255 ∨ 61 ∉ line.take 255 ∨ ∀ b ∈ (line.drop 255).takeWhile (· ≠ 35), isBlank b) := by
      rcases h with hle | hlong
      · rw [List.drop_eq_nil_of_le hle]
        exact ⟨List.not_mem_nil, Or.inr (.inr fun _ hb => absurd hb List.not_mem_nil)⟩
      · exact hlong
    have hsame : definition (line.take 255) = definition line := by
      rcases or_left_comm.mp hrest with hnone | hend
      · have hline : 61 ∉ line := fun hmem => by
          rw [← List.take_append_drop 255 line] at hmem
          exact (List.mem_append.mp hmem).elim hnone hno
        rw [definition_of_notMem hnone, definition_of_notMem hline]
      · have happend := definition_append hend hno
        rw [List.take_append_drop] at happend
        exact happend.symm
    rw [pieces_long hge, first_cons, first_pieces_of_notMem hno, Option.or_none, first, first, List.filterMap_cons,
      List.filterMap_cons, hsame]

theorem first_flatMap_pieces {texts : List (List UInt8)} (h : ∀ line ∈ texts, Fits line) (name : List UInt8) :
    first (texts.flatMap pieces) name = first texts name := by
  induction texts with
  | nil => rfl
  | cons line rest ih =>
    rw [List.forall_mem_cons] at h
    rw [List.flatMap_cons, first_append, first_cons line, first_pieces h.1, ih h.2]

theorem first_of_definition {line name value : List UInt8} (h : definition line = some (name, value))
    (rest : List (List UInt8)) : first (line :: rest) name = some value := by
  rw [first, List.filterMap_cons, h, List.lookup_cons, beq_self_eq_true]

theorem first_eq_none {texts : List (List UInt8)} {name : List UInt8}
    (h : ∀ line ∈ texts, ∀ value, definition line ≠ some (name, value)) : first texts name = none := by
  rw [first, List.lookup_eq_none_iff]
  intro p hp
  obtain ⟨line, hline, heq⟩ := List.mem_filterMap.mp hp
  rw [bne_iff_ne]
  rintro rfl
  exact h line hline p.2 heq

/-- The first definition of a name, in the line as it is and in the line as it is cut. -/
theorem cut_short {before : List (List UInt8)} {line key value cut : List UInt8}
    (hbefore : ∀ l ∈ before, Fits l ∧ ∀ v, definition l ≠ some (key, v)) (hline : definition line = some (key, value))
    (hcut : definition (line.take 255) = some (key, cut)) (hne : cut ≠ value) (rest : List (List UInt8)) :
    first ((before ++ line :: rest).flatMap pieces) key = some cut ∧
      first (before ++ line :: rest) key = some value := by
  have hnone : first before key = none := first_eq_none fun l hl => (hbefore l hl).2
  have hlong : 255 ≤ line.length := by
    by_contra hlt
    rw [List.take_of_length_le (by omega), hline] at hcut
    exact hne (congrArg Prod.snd (Option.some.inj hcut)).symm
  constructor
  · rw [List.flatMap_append, first_append, first_flatMap_pieces (fun l hl => (hbefore l hl).1), hnone, Option.none_or,
      List.flatMap_cons, pieces_long hlong, List.cons_append, first_of_definition hcut]
  · rw [first_append, hnone, Option.none_or, first_of_definition hline]

end ConfigGrammar

namespace CConfigFileReader
open ConfigGrammar

theorem rdropWhile_append (p : UInt8 → Bool) (s t : List UInt8) :
    (s ++ t).rdropWhile p = if t.rdropWhile p = [] then s.rdropWhile p else s ++ t.rdropWhile p := by
  rw [List.rdropWhile, List.reverse_append, List.dropWhile_append, List.rdropWhile, List.rdropWhile]
  split
  · next h =>
    rw [List.isEmpty_iff] at h
    rw [h, if_pos List.reverse_nil]
  · next h =>
    rw [List.isEmpty_iff] at h
    rw [if_neg (by rwa [List.reverse_eq_nil_iff]), List.reverse_append, List.reverse_reverse]

theorem trimSpace_eq (name : List UInt8) : trimSpace name = if trim name = [] then none else some (trim name) := by
  rw [trimSpace, trim]
  set blanks := name.takeWhile isBlank with hblanks
  set text := name.dropWhile isBlank with htext
  have hname : name = blanks ++ text := List.takeWhile_append_dropWhile.symm
  by_cases hnil : text = []
  · rw [if_pos hnil, hnil, List.rdropWhile_nil, if_pos rfl]
  · have hlast : text.rdropWhile isBlank ≠ [] := by
      intro h
      rw [List.rdropWhile_eq_nil_iff] at h
      have hhead := List.head_dropWhile_not isBlank hnil
      rw [h _ (List.head_mem hnil)] at hhead
      exact Bool.noConfusion hhead
    have hkept : name.rdropWhile isBlank = blanks ++ text.rdropWhile isBlank := by
      conv_lhs => rw [hname]
      rw [rdropWhile_append, if_neg hlast]
    have hlen : ((name.rdropWhile isBlank).length : Int) - (name.length - text.length) =
        (text.rdropWhile isBlank).length := by
      rw [hkept, hname, List.length_append, List.length_append]
      push_cast
      ring
    have hpos := List.length_pos_of_ne_nil hlast
    rw [if_neg hnil, if_neg hlast]
    simp only [hlen]
    rw [if_neg (by omega), Int.toNat_natCast,
      ← List.prefix_iff_eq_take.mp (List.rdropWhile_prefix isBlank text)]

/-- A definition is entered. -/
def enter (map : ConfigMap) (line : List UInt8) : ConfigMap :=
  match definition line with
  | some (key, value) => map.insert key value
  | none => map

theorem enter_apply (map : ConfigMap) (line name : List UInt8) :
    enter map line name = (map name).or (first [line] name) := by
  rw [enter, first, List.filterMap_cons, List.filterMap_nil]
  match definition line with
  | none => exact (Option.or_none).symm
  | some (key, value) =>
    simp only [ConfigMap.insert, List.lookup_cons, List.lookup_nil]
    by_cases hname : name = key
    · subst hname
      cases hmap : map name with
      | none => simp
      | some old => simp [hmap]
    · rw [beq_false_of_ne hname]
      split
      · exact (Option.or_none).symm
      · rw [Function.update_of_ne hname]
        exact (Option.or_none).symm

/-- A text whose newline is off is entered. -/
theorem parseLine_eq (line : List UInt8) (map : ConfigMap) :
    (if line.takeWhile (· ≠ 35) = [] then map else parseLine (line.takeWhile (· ≠ 35)) map) = enter map line := by
  rw [enter, definition]
  set text := line.takeWhile (· ≠ 35) with htext
  by_cases hmem : 61 ∈ text
  · have hne : text ≠ [] := List.ne_nil_of_mem hmem
    rw [if_neg hne, parseLine, if_pos hmem, trimSpace_eq, trimSpace_eq]
    set key := trim (text.takeWhile (· ≠ 61)) with hkey
    set value := trim ((text.dropWhile (· ≠ 61)).drop 1) with hvalue
    by_cases hk : key = []
    · simp [hk]
    · by_cases hv : value = []
      · simp [hk, hv]
      · simp [hk, hv, hmem]
  · rw [parseLine, if_neg hmem, ite_self]
    simp [hmem]

theorem loadBuf_newline (line : List UInt8) (map : ConfigMap) : loadBuf (line ++ [10]) map = enter map line := by
  rw [← parseLine_eq, loadBuf, List.getLast?_concat, if_pos rfl, List.dropLast_concat]

theorem loadBuf_eq {line : List UInt8} (h : 10 ∉ line) (map : ConfigMap) : loadBuf line map = enter map line := by
  rw [← parseLine_eq, loadBuf, if_neg fun hlast => h (List.mem_of_getLast? hlast)]

theorem fgets_line {n : Nat} {line : List UInt8} (h : 10 ∉ line) (hn : line.length < n) (rest : List UInt8) :
    fgets n (line ++ 10 :: rest) = (line ++ [10], rest) := by
  induction line generalizing n with
  | nil =>
    obtain ⟨n, rfl⟩ := Nat.exists_eq_succ_of_ne_zero (Nat.ne_of_gt hn)
    rfl
  | cons b line ih =>
    obtain ⟨n, rfl⟩ := Nat.exists_eq_succ_of_ne_zero (Nat.ne_of_gt (Nat.zero_lt_of_lt hn))
    rw [List.mem_cons, not_or] at h
    rw [List.cons_append, fgets, if_neg (Ne.symm h.1), ih h.2 (Nat.lt_of_succ_lt_succ hn)]
    rfl

theorem fgets_piece {n : Nat} {line : List UInt8} (h : 10 ∉ line) (hn : n ≤ line.length) (rest : List UInt8) :
    fgets n (line ++ rest) = (line.take n, line.drop n ++ rest) := by
  induction line generalizing n with
  | nil =>
    obtain rfl := Nat.le_zero.mp hn
    cases rest <;> rfl
  | cons b line ih =>
    cases n with
    | zero => rw [fgets, List.take_zero, List.drop_zero]
    | succ n =>
      rw [List.mem_cons, not_or] at h
      rw [List.cons_append, fgets, if_neg (Ne.symm h.1), ih h.2 (Nat.le_of_succ_le_succ hn)]
      rfl

theorem fgets_last {n : Nat} {line : List UInt8} (h : 10 ∉ line) (hn : line.length < n) :
    fgets n line = (line, []) := by
  induction line generalizing n with
  | nil =>
    obtain ⟨n, rfl⟩ := Nat.exists_eq_succ_of_ne_zero (Nat.ne_of_gt hn)
    rfl
  | cons b line ih =>
    obtain ⟨n, rfl⟩ := Nat.exists_eq_succ_of_ne_zero (Nat.ne_of_gt (Nat.zero_lt_of_lt hn))
    rw [List.mem_cons, not_or] at h
    rw [fgets, if_neg (Ne.symm h.1), ih h.2 (Nat.lt_of_succ_lt_succ hn)]

theorem loadLoop_nil (map : ConfigMap) : loadLoop map [] = map := by rw [loadLoop, dif_pos rfl]

theorem loadLoop_step (map : ConfigMap) {file : List UInt8} (h : file ≠ []) :
    loadLoop map file = loadLoop (loadBuf (fgets 255 file).1 map) (fgets 255 file).2 := by
  rw [loadLoop, dif_neg h]

/-- One line, with what follows it. -/
theorem loadLoop_line {line : List UInt8} (h : 10 ∉ line) (map : ConfigMap) (rest : List UInt8) :
    loadLoop map (line ++ 10 :: rest) = loadLoop ((pieces line).foldl enter map) rest := by
  induction hn : line.length using Nat.strong_induction_on generalizing line map with
  | _ n ih =>
    rw [loadLoop_step map (List.append_ne_nil_of_right_ne_nil line (List.cons_ne_nil 10 rest))]
    rcases Nat.lt_or_ge line.length 255 with hlt | hge
    · rw [fgets_line h hlt, loadBuf_newline, pieces_short hlt, List.foldl_cons, List.foldl_nil]
    · have hpiece : 10 ∉ line.take 255 := fun hmem => h (List.mem_of_mem_take hmem)
      have hdrop : 10 ∉ line.drop 255 := fun hmem => h (List.mem_of_mem_drop hmem)
      have hless : (line.drop 255).length < n := by
        rw [List.length_drop]
        omega
      rw [fgets_piece h hge, loadBuf_eq hpiece, pieces_long hge, List.foldl_cons, ih _ hless hdrop _ rfl]

/-- The last line, when no newline ends it. -/
theorem loadLoop_last {line : List UInt8} (h : 10 ∉ line) (map : ConfigMap) :
    loadLoop map line = (pieces line).foldl enter map := by
  induction hn : line.length using Nat.strong_induction_on generalizing line map with
  | _ n ih =>
    by_cases hnil : line = []
    · rw [hnil, loadLoop_nil, pieces_short (by decide)]
      rfl
    · rw [loadLoop_step map hnil]
      rcases Nat.lt_or_ge line.length 255 with hlt | hge
      · rw [fgets_last h hlt, loadBuf_eq h, loadLoop_nil, pieces_short hlt, List.foldl_cons, List.foldl_nil]
      · have hpiece : 10 ∉ line.take 255 := fun hmem => h (List.mem_of_mem_take hmem)
        have hdrop : 10 ∉ line.drop 255 := fun hmem => h (List.mem_of_mem_drop hmem)
        have hless : (line.drop 255).length < n := by
          rw [List.length_drop]
          omega
        have hfgets := fgets_piece h hge []
        rw [List.append_nil, List.append_nil] at hfgets
        rw [hfgets, loadBuf_eq hpiece, pieces_long hge, List.foldl_cons, ih _ hless hdrop _ rfl]

/-- The loop enters the pieces of the lines, one after the other. -/
theorem loadLoop_eq (map : ConfigMap) (file : List UInt8) :
    loadLoop map file = ((lines file).flatMap pieces).foldl enter map := by
  induction hn : file.length using Nat.strong_induction_on generalizing file map with
  | _ n ih =>
    by_cases hmem : (10 : UInt8) ∈ file
    · obtain ⟨line, rest, rfl, hline⟩ := List.eq_append_cons_of_mem hmem
      have hless : rest.length < n := by
        rw [← hn, List.length_append, List.length_cons]
        omega
      rw [loadLoop_line hline, ih _ hless _ _ rfl, lines, lines,
        List.splitOn_append_cons_self_of_not_mem hline, List.flatMap_cons, List.foldl_append]
    · rw [loadLoop_last hmem, lines, List.splitOn_eq_singleton hmem, List.flatMap_singleton]

theorem foldl_enter (texts : List (List UInt8)) (map : ConfigMap) (name : List UInt8) :
    texts.foldl enter map name = (map name).or (first texts name) := by
  induction texts generalizing map with
  | nil => exact (Option.or_none).symm
  | cons line rest ih => rw [List.foldl_cons, ih, enter_apply, first_cons line rest, Option.or_assoc]

theorem getConfigName_eq (unset : Bool) (file : TextFile) (name : List UInt8) :
    getConfigName (construct unset (some file)) name = first ((lines file.bytes).flatMap pieces) name := by
  rw [construct, getConfigName, if_pos rfl, loadLoop_eq]
  exact (foldl_enter _ _ name).trans Option.none_or

/-- The reader implements the grammar while every line fits; where the first line that does not is a definition of a
new name, and is cut in its value, the reader has the value as it is cut. -/
theorem getConfigName_of_fits (unset : Bool) (file : TextFile) :
    ((∀ line ∈ lines file.bytes, Fits line) →
      ∀ name, getConfigName (construct unset (some file)) name = lookup file.bytes name) ∧
    ∀ before line rest key value cut, lines file.bytes = before ++ line :: rest →
      (∀ l ∈ before, Fits l ∧ ∀ v, definition l ≠ some (key, v)) → definition line = some (key, value) →
      definition (line.take 255) = some (key, cut) → cut ≠ value →
      getConfigName (construct unset (some file)) key ≠ lookup file.bytes key := by
  refine ⟨fun hfits name => ?_, fun before line rest key value cut hfile hbefore hline hcut hne => ?_⟩
  · rw [getConfigName_eq, lookup, first_flatMap_pieces hfits]
  · obtain ⟨hread, hwhole⟩ := cut_short hbefore hline hcut hne rest
    rw [getConfigName_eq, lookup, hfile, hread, hwhole]
    exact fun heq => hne (Option.some.inj heq)

/-- A key that is defined twice, with blanks and a comment. -/
def shortFile : TextFile := ⟨ascii " key =  a b # c\nkey=d", by decide⟩

theorem getConfigName_shortFile :
    getConfigName (construct false (some shortFile)) (ascii "key") = some (ascii "a b") := by
  have hshort : ∀ line ∈ lines shortFile.bytes, line.length ≤ 255 := by decide
  rw [(getConfigName_of_fits false shortFile).1 (fun line hline => Or.inl (hshort line hline)) (ascii "key")]
  decide +kernel

/-- A key and a value of 300 bytes. -/
def longFile : TextFile := ⟨ascii "key=" ++ List.replicate 300 118, by decide +kernel⟩

theorem not_getConfigName_long :
    ¬ ∀ name, getConfigName (construct false (some longFile)) name = lookup longFile.bytes name := by
  have hlines : lines longFile.bytes = [longFile.bytes] := List.splitOn_eq_singleton (by decide +kernel)
  have hread : getConfigName (construct false (some longFile)) (ascii "key") = some (List.replicate 251 118) := by
    rw [getConfigName_eq, hlines]
    decide +kernel
  have hwhole : lookup longFile.bytes (ascii "key") = some (List.replicate 300 118) := by
    rw [lookup, hlines]
    decide +kernel
  intro h
  have hsame := (hread.symm.trans (h (ascii "key"))).trans hwhole
  have hlen := congrArg List.length (Option.some.inj hsame)
  rw [List.length_replicate, List.length_replicate] at hlen
  exact absurd hlen (by decide)

end CConfigFileReader

end PostfixEdm
