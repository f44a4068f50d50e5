import Mathlib.Algebra.GroupWithZero.Nat
import Bano.BanoList
import Bano.Lib.Bytes

/-! The page that the texts of an answer are collected in. Texts are formatted and files are read at the end
of what is there, and the block grows on demand. A write that leaves its block has no result. -/
namespace Bano

open Lib

abbrev U64 := BitVec 64

/-- The blocks that malloc has handed out. -/
abbrev Blocks := Heap (List UInt8)

structure BanoHtml where
  data : Option Ptr
  off : U64
  size : U64
  isErr : Bool

/-- A realloc that fails gives nothing; one that does not gives what the new bytes hold. -/
abbrev Room := Option (Nat → UInt8)

def blockOf (mem : Blocks) : Option Ptr → Option (List UInt8)
  | none => some []
  | some p => mem.cell p

/-- The block moves. -/
def realloc (room : Room) (mem : Blocks) (data : Option Ptr) (n : Nat) : Option (Option Ptr × Blocks) := do
  let old ← blockOf mem data
  match room with
  | none => some (none,mem)
  | some junk =>
    let mem := match data with
      | none => mem
      | some p => mem.erase p
    some (some mem.next,mem.alloc (grown old junk n))

def resizeData (room : Room) (html : BanoHtml) (mem : Blocks) (size : U64) : Option (Int × BanoHtml × Blocks) := do
  let newSize := (size + 0x1000) &&& ~~~(0x1000 - 1)
  match ← realloc room mem html.data newSize.toNat with
  | (none,mem) => some (-1,{ html with isErr := true },mem)
  | (some p,mem) => some (0,{ html with data := some p, size := newSize },mem)

def freeData (html : BanoHtml) (mem : Blocks) : Option (BanoHtml × Blocks) := do
  let mem ← match html.data with
    | none => some mem
    | some p => mem.free p
  some ({ html with data := none, size := 0, off := 0 },mem)

def banoHtmlInit : BanoHtml := ⟨none,0,0,false⟩

def banoHtmlFini (html : BanoHtml) (mem : Blocks) : Option (BanoHtml × Blocks) := freeData html mem

def writeAt (mem : Blocks) (data : Option Ptr) (off : Nat) (values : List UInt8) : Option Blocks :=
  if values = [] then some mem
  else do
    let p ← data
    let block ← mem.cell p
    let block ← store block off values
    mem.update p fun _ => block

/-- The formatted text of a call. An attempt that vsnprintf fails may leave some bytes in the buffer. -/
structure Print where
  text : List UInt8
  fault : Nat → Option (List UInt8)
  room : Room

/-- What does not fit is cut, so that a zero stands at the end; the length has to be an int. -/
def vsnprintf (mem : Blocks) (data : Option Ptr) (off size : U64) (fault : Option (List UInt8)) (text : List UInt8) :
    Option (Int × Blocks) := do
  match fault with
  | some left =>
    let mem ← writeAt mem data off.toNat (left.take size.toNat)
    some (-1,mem)
  | none =>
    let mem ← writeAt mem data off.toNat (if size = 0 then [] else text.take (size.toNat - 1) ++ [0])
    some (if text.length < 2 ^ 31 then text.length else -1,mem)

def onHtmlError (html : BanoHtml) (mem : Blocks) : Option (Int × BanoHtml × Blocks) := do
  let (html,mem) ← freeData html mem
  some (-1,{ html with isErr := true },mem)

/-- `once` is 1 at first, so that 0 comes next. -/
def doVsnprintf (print : Print) (once : Nat) (html : BanoHtml) (mem : Blocks) : Option (Int × BanoHtml × Blocks) := do
  let size := html.size - html.off
  let (len,mem) ← vsnprintf mem html.data html.off size (print.fault once) print.text
  if len < 0 then onHtmlError html mem
  else if (size.setWidth 32).toInt ≤ len then
    match once with
    | 0 => onHtmlError html mem
    | once + 1 => do
      let (err,html,mem) ← resizeData print.room html mem (html.off + BitVec.ofInt 64 len + 1)
      if err = -1 then onHtmlError html mem else doVsnprintf print once html mem
  else some (0,{ html with off := html.off + BitVec.ofInt 64 len },mem)

def banoHtmlPrintf (print : Print) (html : BanoHtml) (mem : Blocks) : Option (Int × BanoHtml × Blocks) :=
  if html.isErr then some (-1,html,mem) else doVsnprintf print 1 html mem

/-- What open, fstat and read answer. The file may have changed since its size was read. -/
inductive FileAnswer where
  | noOpen
  | noStat
  | file (size : U64) (content : Option (List UInt8))

structure Include where
  file : FileAnswer
  room : Room

def makeRoom (room : Room) (html : BanoHtml) (mem : Blocks) (newSize : U64) : Option (Int × BanoHtml × Blocks) :=
  if html.size < newSize then resizeData room html mem newSize else some (0,html,mem)

def readFile (stSize : U64) (content : Option (List UInt8)) (html : BanoHtml) (mem : Blocks) :
    Option (Int × BanoHtml × Blocks) :=
  match content with
  | none => onHtmlError html mem
  | some content => do
    let got := content.take stSize.toNat
    let mem ← writeAt mem html.data html.off.toNat got
    if got.length ≠ stSize.toNat then onHtmlError html mem
    else some (0,{ html with off := html.off + stSize },mem)

def banoHtmlInclude (incl : Include) (html : BanoHtml) (mem : Blocks) : Option (Int × BanoHtml × Blocks) :=
  if html.isErr then some (-1,html,mem)
  else
    match incl.file with
    | .noOpen | .noStat => onHtmlError html mem
    | .file stSize content => do
      let (err,html,mem) ← makeRoom incl.room html mem (html.off + stSize)
      if err ≠ 0 then onHtmlError html mem else readFile stSize content html mem

inductive HtmlCall where
  | printf (print : Print)
  | incl (incl : Include)

namespace HtmlCall

def step : HtmlCall → BanoHtml → Blocks → Option (Int × BanoHtml × Blocks)
  | .printf text, html, mem => banoHtmlPrintf text html mem
  | .incl file, html, mem => banoHtmlInclude file html mem

def run : List HtmlCall → BanoHtml → Blocks → Option (List Int × BanoHtml × Blocks)
  | [], html, mem => some ([],html,mem)
  | call :: calls, html, mem => do
    let (err,html,mem) ← call.step html mem
    let (errs,html,mem) ← run calls html mem
    some (err :: errs,html,mem)

/-- What a call adds to the page. -/
def bytes : HtmlCall → List UInt8
  | .printf print => print.text
  | .incl ⟨.file stSize (some content),_⟩ => content.take stSize.toNat
  | .incl _ => []

/-- How much a call asks for, also if it fails. -/
def length : HtmlCall → Nat
  | .printf print => print.text.length
  | .incl ⟨.file stSize _,_⟩ => stSize.toNat
  | .incl _ => 0

/-- When a call of a page without an error succeeds: nothing that it asks for is refused. -/
def granted (html : BanoHtml) : HtmlCall → Prop
  | .printf print => print.fault 1 = none ∧
      (html.size.toNat ≤ html.off.toNat + print.text.length → print.room ≠ none ∧ print.fault 0 = none)
  | .incl ⟨.file stSize (some content),room⟩ => stSize.toNat ≤ content.length ∧
      (html.size.toNat < html.off.toNat + stSize.toNat → room ≠ none)
  | .incl _ => False

end HtmlCall

/-- The block of a page is the only cell in which the heap differs from what it was before the page. -/
structure OnHeap (mem₀ : Blocks) (data : Option Ptr) (mem : Blocks) (block : List UInt8) : Prop where
  here : blockOf mem data = some block
  new : ∀ p, data = some p → mem₀.cell p = none
  others : ∀ q, data ≠ some q → mem.cell q = mem₀.cell q

namespace OnHeap

theorem init (mem₀ : Blocks) : OnHeap mem₀ none mem₀ [] := ⟨rfl,nofun,fun _ _ => rfl⟩

theorem writeAt (held : OnHeap mem₀ data mem block) (off : Nat) (values : List UInt8)
    (room : off + values.length ≤ block.length) :
    ∃ mem' block', Bano.writeAt mem data off values = some mem' ∧ store block off values = some block' ∧
      OnHeap mem₀ data mem' block' := by
  unfold Bano.writeAt
  by_cases nothing : values = []
  · subst nothing
    rw [if_pos rfl]
    exact ⟨mem,block,rfl,by rw [store_eq room]; simp,held⟩
  rw [if_neg nothing]
  cases data with
  | none =>
    have empty : block = [] := (Option.some.inj held.here).symm
    rw [empty,List.length_nil] at room
    exact absurd (List.length_eq_zero_iff.mp (by omega)) nothing
  | some p =>
    have here : mem.cell p = some block := held.here
    refine ⟨mem.modify p fun _ => block.take off ++ values ++ block.drop (off + values.length),_,?_,
      store_eq room,?_,held.new,?_⟩
    · simp only [Option.bind_eq_bind,Option.bind_some,here,store_eq room,Heap.update_live here]
    · simp only [blockOf,Heap.modify_cell_same,here,Option.map_some]
    · intro q other
      rw [Heap.modify_cell_other fun same => other (congrArg some same.symm)]
      exact held.others q other

theorem freeData (held : OnHeap mem₀ html.data mem block) : ∃ mem',
    Bano.freeData html mem = some ({ html with data := none, size := 0, off := 0 },mem') ∧ ∀ q,
      mem'.cell q = mem₀.cell q := by
  unfold Bano.freeData
  cases data : html.data with
  | none => exact ⟨mem,rfl,fun q => held.others q (by simp [data])⟩
  | some p =>
    rw [data] at held
    have here : mem.cell p = some block := held.here
    refine ⟨mem.erase p,by simp [Heap.free_live here],fun q => ?_⟩
    by_cases same : q = p
    · subst same
      rw [Heap.erase_cell_same,held.new q rfl]
    · rw [Heap.erase_cell_other same]
      exact held.others q fun h => same (Option.some.inj h).symm

theorem onHtmlError (held : OnHeap mem₀ html.data mem block) : ∃ mem',
    Bano.onHtmlError html mem = some (-1,⟨none,0,0,true⟩,mem') ∧ ∀ q, mem'.cell q = mem₀.cell q := by
  obtain ⟨mem',freed,same⟩ := held.freeData
  exact ⟨mem',by simp [Bano.onHtmlError,freed],same⟩

theorem realloc (held : OnHeap mem₀ data mem block) (junk : Nat → UInt8) (n : Nat) : ∃ p mem',
    Bano.realloc (some junk) mem data n = some (some p,mem') ∧ OnHeap mem₀ (some p) mem' (grown block junk n) := by
  unfold Bano.realloc
  rw [held.here]
  cases data with
  | none =>
    refine ⟨mem.next,_,rfl,by simp [blockOf],?_,?_⟩
    · rintro p rfl'
      obtain rfl := Option.some.inj rfl'
      rw [← held.others mem.next nofun,Heap.cell_next]
    · intro q other
      rw [Heap.alloc_cell_other fun same => other (congrArg some same.symm)]
      exact held.others q nofun
  | some p =>
    have here : mem.cell p = some block := held.here
    have apart : mem.next ≠ p := (Heap.next_ne here).symm
    refine ⟨mem.next,_,rfl,?_,?_,?_⟩
    · simp [blockOf,Heap.alloc_cell]
    · intro q same
      obtain rfl := Option.some.inj same
      rw [← held.others mem.next fun h => apart (Option.some.inj h).symm,Heap.cell_next]
    · intro q other
      have unlike : q ≠ mem.next := fun same => other (congrArg some same.symm)
      rw [Heap.alloc_cell_other (by simpa using unlike)]
      by_cases same : q = p
      · subst same
        rw [Heap.erase_cell_same,held.new q rfl]
      · rw [Heap.erase_cell_other same]
        exact held.others q fun h => same (Option.some.inj h).symm

end OnHeap

/-- Clearing the low bits rounds down. -/
theorem roundDown_toNat (n : U64) : (n &&& ~~~(0x1000 - 1)).toNat = n.toNat / 4096 * 4096 := by
  have apart : (n &&& ~~~(0x1000 - 1)) &&& (n &&& (0x1000 - 1)) = 0 := by
    ext i
    simp only [BitVec.getElem_and,BitVec.getElem_not]
    cases n[i] <;> cases (0x1000 - 1 : U64)[i] <;> simp
  have whole : (n &&& ~~~(0x1000 - 1)) ||| (n &&& (0x1000 - 1)) = n := by
    ext i
    simp only [BitVec.getElem_or,BitVec.getElem_and,BitVec.getElem_not]
    cases n[i] <;> cases (0x1000 - 1 : U64)[i] <;> simp
  have sum := BitVec.toNat_add_of_and_eq_zero apart
  rw [BitVec.add_eq_or_of_and_eq_zero _ _ apart,whole] at sum
  have low : (n &&& (0x1000 - 1)).toNat = n.toNat % 4096 := by
    rw [BitVec.toNat_and]
    exact Nat.and_two_pow_sub_one_eq_mod n.toNat 12
  omega

theorem newSize_toNat (size : U64) (small : size.toNat + 4096 < 2 ^ 64) :
    ((size + 0x1000) &&& ~~~(0x1000 - 1)).toNat = (size.toNat + 4096) / 4096 * 4096 := by
  rw [roundDown_toNat,BitVec.toNat_add_of_lt (show size.toNat + (0x1000 : U64).toNat < 2 ^ 64 from small)]
  rfl

theorem int_toInt (size : U64) (small : size.toNat < 2 ^ 31) : (size.setWidth 32).toInt = size.toNat := by
  rw [BitVec.toInt_eq_toNat_of_lt] <;> rw [BitVec.toNat_setWidth,Nat.mod_eq_of_lt (by omega)]
  omega

/-- A page that holds a text. -/
structure Built (mem₀ : Blocks) (html : BanoHtml) (mem : Blocks) (text : List UInt8) : Prop where
  noErr : html.isErr = false
  off : html.off.toNat = text.length
  room : html.off.toNat ≤ html.size.toNat
  whole : 4096 ∣ html.size.toNat
  block : ∃ block, OnHeap mem₀ html.data mem block ∧ block.length = html.size.toNat ∧ block.take html.off.toNat = text

/-- A page that was given up. -/
structure Gone (mem₀ : Blocks) (html : BanoHtml) (mem : Blocks) : Prop where
  page : html = ⟨none,0,0,true⟩
  same : ∀ q, mem.cell q = mem₀.cell q

theorem Built.init (mem₀ : Blocks) : Built mem₀ banoHtmlInit mem₀ [] :=
  ⟨rfl,rfl,Nat.le_refl _,⟨0,rfl⟩,[],.init _,rfl,rfl⟩

namespace Built

/-- How much of the block is free. -/
theorem free_toNat (built : Built mem₀ html mem text) :
    (html.size - html.off).toNat = html.size.toNat - html.off.toNat :=
  BitVec.toNat_sub_of_le (BitVec.le_def.mpr built.room)

/-- An attempt to format behind the text, whatever comes of it. -/
theorem vsnprintf (built : Built mem₀ html mem text) (fault : Option (List UInt8)) (more : List UInt8) : ∃ mem',
    Bano.vsnprintf mem html.data html.off (html.size - html.off) fault more =
      some (if fault = none ∧ more.length < 2 ^ 31 then (more.length : Int) else -1,mem') ∧
    Built mem₀ html mem' text ∧ (fault = none → text.length + more.length < html.size.toNat →
      ∃ block, OnHeap mem₀ html.data mem' block ∧ block.length = html.size.toNat ∧
        block.take (html.off.toNat + more.length) = text ++ more) := by
  obtain ⟨block,held,length,content⟩ := built.block
  have room := built.room
  have off := built.off
  have free := built.free_toNat
  have zero : html.size - html.off = 0 ↔ html.size.toNat - html.off.toNat = 0 := by
    rw [← free]
    exact ⟨fun h => by simp [h],fun h => BitVec.eq_of_toNat_eq h⟩
  have kept : ∀ {mem' block'} {values : List UInt8}, store block html.off.toNat values = some block' →
      OnHeap mem₀ html.data mem' block' → Built mem₀ html mem' text := fun stored held =>
    { built with block := ⟨_,held,(store_length stored).trans length,
      (store_before stored (Nat.le_refl _)).trans content⟩ }
  unfold Bano.vsnprintf
  cases fault with
  | some left =>
    obtain ⟨mem',block',written,stored,held⟩ := held.writeAt html.off.toNat
      (left.take (html.size - html.off).toNat) (by rw [List.length_take]; omega)
    exact ⟨mem',by simp only [written,Option.bind_eq_bind,Option.bind_some,reduceCtorEq,false_and,if_false],
      kept stored held,nofun⟩
  | none =>
    obtain ⟨mem',block',written,stored,held⟩ := held.writeAt html.off.toNat
      (if html.size - html.off = 0 then [] else more.take ((html.size - html.off).toNat - 1) ++ [0]) (by
        split_ifs with full
        · simp only [List.length_nil]
          omega
        · rw [zero] at full
          rw [List.length_append,List.length_take,List.length_singleton]
          omega)
    refine ⟨mem',by simp only [written,Option.bind_eq_bind,Option.bind_some,true_and],
      kept stored held,fun _ fits => ?_⟩
    refine ⟨block',held,(store_length stored).trans length,?_⟩
    rw [if_neg (by rw [zero]; omega),List.take_of_length_le (by omega)] at stored
    rw [store_front stored,content]

/-- Where a text ends that is put behind the page. -/
theorem behind (built : Built mem₀ html mem text) (more : List UInt8) (small : text.length + more.length < 2 ^ 64) :
    (html.off + BitVec.ofInt 64 more.length).toNat = text.length + more.length := by
  have off := built.off
  have len : (BitVec.ofInt 64 more.length).toNat = more.length := by
    rw [BitVec.ofInt_natCast,BitVec.toNat_ofNat,Nat.mod_eq_of_lt (by omega)]
  rw [BitVec.toNat_add_of_lt (by omega),len,off]

theorem onHtmlError (built : Built mem₀ html mem text) (same : html'.data = html.data) : ∃ html'' mem',
    Bano.onHtmlError html' mem = some (-1,html'',mem') ∧ Gone mem₀ html'' mem' := by
  obtain ⟨block,held,_⟩ := built.block
  obtain ⟨mem',failed,frame⟩ := (same ▸ held).onHtmlError
  exact ⟨_,mem',failed,rfl,frame⟩

theorem resizeData (built : Built mem₀ html mem text) (size : U64) (small : size.toNat + 4096 < 2 ^ 64)
    (more : text.length ≤ size.toNat)
    (junk : Nat → UInt8) : ∃ html' mem', Bano.resizeData (some junk) html mem size = some (0,html',mem') ∧
      Built mem₀ html' mem' text ∧ html'.off = html.off ∧ html'.size.toNat = (size.toNat + 4096) / 4096 * 4096 := by
  obtain ⟨block,held,length,content⟩ := built.block
  have off := built.off
  have room := built.room
  have new := newSize_toNat size small
  obtain ⟨p,mem',moved,held⟩ := held.realloc junk ((size + 0x1000) &&& ~~~(0x1000 - 1)).toNat
  refine ⟨{ html with data := some p, size := (size + 0x1000) &&& ~~~(0x1000 - 1) },mem',?_,?_,rfl,new⟩
  · simp only [Bano.resizeData,moved,Option.bind_eq_bind,Option.bind_some]
  · refine ⟨built.noErr,off,?_,?_,_,held,grown_length _ _ _,?_⟩
    · simp only [new]
      omega
    · simp only [new]
      exact Nat.dvd_mul_left 4096 _
    · exact (grown_take (k := html.off.toNat) (by omega) (by omega) junk).trans content

theorem resizeData_fails (built : Built mem₀ html mem text) (size : U64) :
    Bano.resizeData none html mem size = some (-1,{ html with isErr := true },mem) := by
  obtain ⟨block,held,_⟩ := built.block
  simp [Bano.resizeData,Bano.realloc,held.here]

theorem extend {off : U64} {block : List UInt8} (built : Built mem₀ html mem text)
    (fits : text.length + more.length ≤ html.size.toNat)
    (added : off.toNat = text.length + more.length) (held : OnHeap mem₀ html.data mem' block)
    (length : block.length = html.size.toNat) (content : block.take (html.off.toNat + more.length) = text ++ more) :
    Built mem₀ { html with off := off } mem' (text ++ more) := by
  refine ⟨built.noErr,?_,?_,built.whole,block,held,length,?_⟩
  · rw [added,List.length_append]
  · rw [added]
    exact fits
  · rw [← content,built.off,added]

/-- An attempt that fits. -/
theorem doVsnprintf_fits (built : Built mem₀ html mem text) (small : html.size.toNat < 2 ^ 31)
    (okay : print.fault once = none) (fits : text.length + print.text.length < html.size.toNat) : ∃ html' mem',
    doVsnprintf print once html mem = some (0,html',mem') ∧ Built mem₀ html' mem' (text ++ print.text) ∧
      html'.size = html.size := by
  obtain ⟨mem',attempt,_,written⟩ := built.vsnprintf (print.fault once) print.text
  obtain ⟨block,held,length,content⟩ := written okay fits
  have off := built.off
  have free := built.free_toNat
  have bound : print.text.length < 2 ^ 31 := by omega
  have added := built.behind print.text (by omega)
  refine ⟨_,mem',?_,built.extend (by omega) added held length content,rfl⟩
  unfold doVsnprintf
  dsimp only
  rw [attempt]
  simp only [okay,bound,Option.bind_eq_bind,Option.bind_some,and_self,if_true]
  rw [if_neg (by omega),if_neg (by rw [int_toInt _ (by omega)]; omega)]

/-- An attempt that does not. -/
theorem doVsnprintf_full (built : Built mem₀ html mem text) (small : html.size.toNat < 2 ^ 31)
    (bound : print.text.length < 2 ^ 31)
    (okay : print.fault (once + 1) = none) (full : html.size.toNat ≤ text.length + print.text.length) : ∃ mem',
    Built mem₀ html mem' text ∧ doVsnprintf print (once + 1) html mem = (do
      let (err,html,mem) ← Bano.resizeData print.room html mem' (html.off + BitVec.ofInt 64 print.text.length + 1)
      if err = -1 then Bano.onHtmlError html mem else doVsnprintf print once html mem) := by
  obtain ⟨mem',attempt,kept,_⟩ := built.vsnprintf (print.fault (once + 1)) print.text
  have off := built.off
  have free := built.free_toNat
  have int := int_toInt (html.size - html.off) (Nat.lt_of_le_of_lt (free ▸ Nat.sub_le _ _) small)
  refine ⟨mem',kept,?_⟩
  conv_lhs => unfold doVsnprintf
  dsimp only
  rw [attempt]
  simp only [okay,bound,Option.bind_eq_bind,Option.bind_some,and_self,if_true]
  rw [if_neg (by omega),if_pos (by rw [int]; omega)]

/-- An attempt that vsnprintf fails. -/
theorem doVsnprintf_fault (built : Built mem₀ html mem text) (fault : print.fault once ≠ none) : ∃ html' mem',
    doVsnprintf print once html mem = some (-1,html',mem') ∧ Gone mem₀ html' mem' := by
  obtain ⟨mem',attempt,kept,_⟩ := built.vsnprintf (print.fault once) print.text
  obtain ⟨html'',mem'',failed,gone⟩ := kept.onHtmlError rfl
  refine ⟨html'',mem'',?_,gone⟩
  unfold doVsnprintf
  dsimp only
  rw [attempt]
  simp only [fault,Option.bind_eq_bind,Option.bind_some,false_and,if_false]
  exact failed

end Built

/-- What a call makes of a page that holds a text. -/
inductive Stepped (mem₀ : Blocks) (call : HtmlCall) (html : BanoHtml) (text : List UInt8) :
    Int × BanoHtml × Blocks → Prop
  | done : call.granted html → Built mem₀ html' mem' (text ++ call.bytes) →
      html'.size.toNat ≤ (text ++ call.bytes).length + 4097 → Stepped mem₀ call html text (0,html',mem')
  | failed : ¬ call.granted html → Gone mem₀ html' mem' → Stepped mem₀ call html text (-1,html',mem')

namespace Built

theorem giveUp (built : Built mem₀ html mem text) (same : html'.data = html.data) (refused : ¬ call.granted html) :
    ∃ r, Bano.onHtmlError html' mem = some r ∧ Stepped mem₀ call html text r := by
  obtain ⟨html'',mem',failed,gone⟩ := built.onHtmlError same
  exact ⟨_,failed,.failed refused gone⟩

theorem printf (built : Built mem₀ html mem text) (tight : html.size.toNat ≤ text.length + 4097)
    (bound : text.length + print.text.length < 2 ^ 31 - 8192) :
    ∃ r, banoHtmlPrintf print html mem = some r ∧ Stepped mem₀ (.printf print) html text r := by
  have off := built.off
  unfold banoHtmlPrintf
  rw [built.noErr,if_neg Bool.false_ne_true]
  by_cases first : print.fault 1 = none
  swap
  · obtain ⟨html',mem',failed,gone⟩ := built.doVsnprintf_fault first
    exact ⟨_,failed,.failed (fun granted => first granted.1) gone⟩
  by_cases full : html.size.toNat ≤ text.length + print.text.length
  swap
  · obtain ⟨html',mem',fits,built',size⟩ := built.doVsnprintf_fits (by omega) first (Nat.lt_of_not_le full)
    refine ⟨_,fits,.done ⟨first,fun more => absurd (off ▸ more) full⟩ built' ?_⟩
    rw [size,List.length_append]
    omega
  obtain ⟨mem₁,built₁,again⟩ := built.doVsnprintf_full (by omega) (by omega) first full
  have sum := built.behind print.text (by omega)
  have wanted : (html.off + BitVec.ofInt 64 print.text.length + 1).toNat = text.length + print.text.length + 1 := by
    rw [BitVec.toNat_add_of_lt (show _ + 1 < 2 ^ 64 by omega),sum]
    rfl
  rw [again]
  cases room : print.room with
  | none =>
    rw [built₁.resizeData_fails]
    exact built₁.giveUp rfl fun granted => (granted.2 (off ▸ full)).1 room
  | some junk =>
    obtain ⟨html₂,mem₂,resized,built₂,_,size⟩ :=
      built₁.resizeData (html.off + BitVec.ofInt 64 print.text.length + 1)
      (by omega) (by omega) junk
    rw [resized]
    simp only [Option.bind_eq_bind,Option.bind_some]
    rw [if_neg (by decide)]
    by_cases second : print.fault 0 = none
    · obtain ⟨html',mem',fits,built',kept⟩ := built₂.doVsnprintf_fits (by omega) second (by omega)
      refine ⟨_,fits,.done ⟨first,fun _ => ⟨by simp [room],second⟩⟩ built' ?_⟩
      simp only [kept,HtmlCall.bytes,List.length_append]
      omega
    · obtain ⟨html',mem',failed,gone⟩ := built₂.doVsnprintf_fault second
      exact ⟨_,failed,.failed (fun granted => second (granted.2 (off ▸ full)).2) gone⟩

/-- Once there is room for the file. -/
theorem readFile (built : Built mem₀ html mem text) (content : Option (List UInt8))
    (fits : text.length + stSize.toNat ≤ html.size.toNat) : ∃ err html' mem',
    Bano.readFile stSize content html mem = some (err,html',mem') ∧
    ((∃ read, content = some read ∧ stSize.toNat ≤ read.length ∧ err = 0 ∧ html'.size = html.size ∧
        Built mem₀ html' mem' (text ++ read.take stSize.toNat)) ∨
      (∀ read, content = some read → read.length < stSize.toNat) ∧ err = -1 ∧ Gone mem₀ html' mem') := by
  have off := built.off
  have size := html.size.isLt
  unfold Bano.readFile
  cases content with
  | none =>
    obtain ⟨html',mem',failed,gone⟩ := built.onHtmlError rfl
    exact ⟨-1,html',mem',failed,.inr ⟨nofun,rfl,gone⟩⟩
  | some read =>
    obtain ⟨block,held,length,content⟩ := built.block
    obtain ⟨mem',block',written,stored,held⟩ := held.writeAt html.off.toNat (read.take stSize.toNat)
      (by rw [List.length_take]; omega)
    simp only [written,Option.bind_eq_bind,Option.bind_some]
    split_ifs with short
    · rw [List.length_take] at short
      have kept : Built mem₀ html mem' text :=
        { built with block := ⟨block',held,(store_length stored).trans length,
          (store_before stored (Nat.le_refl _)).trans content⟩ }
      obtain ⟨html'',mem'',failed,gone⟩ := kept.onHtmlError rfl
      refine ⟨-1,html'',mem'',failed,.inr ⟨?_,rfl,gone⟩⟩
      intro read' same
      obtain rfl := Option.some.inj same
      omega
    · have full := not_not.mp short
      have added : (html.off + stSize).toNat = text.length + (read.take stSize.toNat).length := by
        rw [BitVec.toNat_add_of_lt (by omega),off,full]
      refine ⟨0,_,mem',rfl,.inl ⟨read,rfl,by rw [List.length_take] at full; omega,rfl,rfl,?_⟩⟩
      exact built.extend (by omega) added held ((store_length stored).trans length)
        (by rw [store_take stored,content])

theorem makeRoom {room : Room} (built : Built mem₀ html mem text) (tight : html.size.toNat ≤ text.length + 4097)
    (bound : text.length + stSize.toNat < 2 ^ 31)
    (granted : html.size.toNat < html.off.toNat + stSize.toNat → room ≠ none) :
    ∃ html' mem', Bano.makeRoom room html mem (html.off + stSize) = some (0,html',mem') ∧ Built mem₀ html' mem' text ∧
      text.length + stSize.toNat ≤ html'.size.toNat ∧ html'.size.toNat ≤ text.length + stSize.toNat + 4097 := by
  have off := built.off
  have sum : (html.off + stSize).toNat = text.length + stSize.toNat := by
    rw [BitVec.toNat_add_of_lt (by omega),off]
  unfold Bano.makeRoom
  by_cases more : html.size < html.off + stSize
  · rw [if_pos more]
    rw [BitVec.lt_def,sum] at more
    obtain ⟨junk,rfl⟩ := Option.ne_none_iff_exists'.mp (granted (by omega))
    obtain ⟨html',mem',resized,built',_,size⟩ := built.resizeData (html.off + stSize) (by omega) (by omega) junk
    exact ⟨html',mem',resized,built',by omega,by omega⟩
  · rw [if_neg more]
    rw [BitVec.lt_def,sum] at more
    exact ⟨html,mem,rfl,built,by omega,by omega⟩

theorem incl (built : Built mem₀ html mem text) (tight : html.size.toNat ≤ text.length + 4097)
    (bound : text.length + (HtmlCall.incl file).length < 2 ^ 31 - 8192) :
    ∃ r, banoHtmlInclude file html mem = some r ∧ Stepped mem₀ (.incl file) html text r := by
  have off := built.off
  unfold banoHtmlInclude
  rw [built.noErr,if_neg Bool.false_ne_true]
  obtain ⟨answer,room⟩ := file
  cases answer with
  | noOpen => exact built.giveUp rfl id
  | noStat => exact built.giveUp rfl id
  | file stSize content =>
    simp only [HtmlCall.length] at bound
    by_cases enough : html.size.toNat < html.off.toNat + stSize.toNat → room ≠ none
    · obtain ⟨html₁,mem₁,enlarged,built₁,fits,size⟩ := built.makeRoom tight (by omega) enough
      obtain ⟨err,html',mem',taken,outcome⟩ := built₁.readFile content fits
      refine ⟨(err,html',mem'),?_,?_⟩
      · simp only [enlarged,Option.bind_eq_bind,Option.bind_some]
        rw [if_neg (by simp)]
        exact taken
      · rcases outcome with ⟨read,rfl,full,rfl,kept,built'⟩ | ⟨short,rfl,gone⟩
        · refine .done ⟨full,enough⟩ built' ?_
          simp only [kept,HtmlCall.bytes,List.length_append,List.length_take]
          omega
        · refine .failed (fun granted => ?_) gone
          cases content with
          | none => exact granted
          | some read =>
            have less := short read rfl
            have full := granted.1
            omega
    · obtain ⟨more,refused⟩ := Classical.not_imp.mp enough
      have larger : html.size < html.off + stSize := by
        rw [BitVec.lt_def,BitVec.toNat_add_of_lt (by omega)]
        exact more
      obtain rfl := not_not.mp refused
      simp only [Bano.makeRoom,if_pos larger,built.resizeData_fails,Option.bind_eq_bind,Option.bind_some]
      rw [if_pos (by decide)]
      refine built.giveUp rfl fun granted => ?_
      cases content with
      | none => exact granted
      | some read => exact enough granted.2

theorem step (built : Built mem₀ html mem text) (call : HtmlCall) (tight : html.size.toNat ≤ text.length + 4097)
    (bound : text.length + call.length < 2 ^ 31 - 8192) :
    ∃ r, call.step html mem = some r ∧ Stepped mem₀ call html text r := by
  cases call with
  | printf print => exact built.printf tight bound
  | incl file => exact built.incl tight bound

end Built

/-- Nothing is added to a page that was given up, and nothing is written. -/
theorem Gone.run (gone : Gone mem₀ html mem) (calls : List HtmlCall) :
    HtmlCall.run calls html mem = some (List.replicate calls.length (-1),html,mem) := by
  have err : html.isErr = true := by rw [gone.page]
  induction calls with
  | nil => rfl
  | cons call calls ih =>
    have step : call.step html mem = some (-1,html,mem) := by
      cases call with
      | printf => exact if_pos err
      | incl => exact if_pos err
    simp only [HtmlCall.run,step,Option.bind_eq_bind,Option.bind_some,ih,List.length_cons,List.replicate_succ]

theorem HtmlCall.bytes_length (call : HtmlCall) : call.bytes.length ≤ call.length := by
  rcases call with print | ⟨answer | answer | ⟨stSize,content⟩,room⟩
  · exact Nat.le_refl _
  · exact Nat.le_refl _
  · exact Nat.le_refl _
  · cases content with
    | none => exact Nat.zero_le _
    | some content => exact List.length_take_le _ _

theorem HtmlCall.bytes_sum (calls : List HtmlCall) : (calls.flatMap bytes).length ≤ (calls.map length).sum := by
  induction calls with
  | nil => exact Nat.le_refl _
  | cons call calls ih =>
    rw [List.flatMap_cons,List.length_append,List.map_cons,List.sum_cons]
    exact Nat.add_le_add call.bytes_length ih

/-- A run goes on as long as what it asks for is granted. -/
theorem Built.run (built : Built mem₀ html mem text) (tight : html.size.toNat ≤ text.length + 4097)
    (calls : List HtmlCall)
    (bound : text.length + (calls.map HtmlCall.length).sum < 2 ^ 31 - 8192) : ∃ errs html' mem',
    HtmlCall.run calls html mem = some (errs,html',mem') ∧
    (errs = List.replicate calls.length 0 ∧ Built mem₀ html' mem' (text ++ calls.flatMap HtmlCall.bytes) ∧
        html'.size.toNat ≤ (text ++ calls.flatMap HtmlCall.bytes).length + 4097 ∨
      (∃ n < calls.length, errs = List.replicate n 0 ++ List.replicate (calls.length - n) (-1)) ∧
      Gone mem₀ html' mem') := by
  induction calls generalizing html mem text with
  | nil => exact ⟨[],html,mem,rfl,.inl ⟨rfl,by simpa using built,by simpa using tight⟩⟩
  | cons call calls ih =>
    rw [List.map_cons,List.sum_cons] at bound
    have added := call.bytes_length
    obtain ⟨r,stepped,outcome⟩ := built.step call tight (by omega)
    cases outcome with
    | @done html₁ mem₁ granted built₁ tight₁ =>
      obtain ⟨errs,html',mem',ran,rest⟩ := ih built₁ tight₁ (by rw [List.length_append]; omega)
      refine ⟨0 :: errs,html',mem',by simp [HtmlCall.run,stepped,ran],?_⟩
      rcases rest with ⟨rfl,built',tight'⟩ | ⟨⟨n,less,rfl⟩,gone⟩
      · rw [List.append_assoc] at built' tight'
        exact .inl ⟨rfl,built',tight'⟩
      · refine .inr ⟨⟨n + 1,Nat.succ_lt_succ less,?_⟩,gone⟩
        rw [List.length_cons,Nat.add_sub_add_right,List.replicate_succ,List.cons_append]
    | @failed html₁ mem₁ refused gone =>
      refine ⟨-1 :: List.replicate calls.length (-1),html₁,mem₁,by simp [HtmlCall.run,stepped,gone.run],?_⟩
      exact .inr ⟨⟨0,Nat.succ_pos _,rfl⟩,gone⟩

/-- A page is given back as a whole. -/
theorem Built.fini (built : Built mem₀ html mem text) : ∃ html' mem',
    banoHtmlFini html mem = some (html',mem') ∧ ∀ q, mem'.cell q = mem₀.cell q := by
  obtain ⟨block,held,_⟩ := built.block
  obtain ⟨mem',freed,same⟩ := held.freeData
  exact ⟨_,mem',freed,same⟩

theorem Gone.fini (gone : Gone mem₀ html mem) : ∃ html', banoHtmlFini html mem = some (html',mem) := by
  rw [gone.page]
  exact ⟨_,rfl⟩

/-- Whatever is asked of a page, no write leaves its block. -/
theorem htmlPages (calls : List HtmlCall) (mem₀ : Blocks) (bound : (calls.map HtmlCall.length).sum < 2 ^ 31 - 8192) :
    ∃ errs html mem, HtmlCall.run calls banoHtmlInit mem₀ = some (errs,html,mem) ∧
      (∃ n ≤ calls.length, errs = List.replicate n 0 ++ List.replicate (calls.length - n) (-1)) ∧
      (-1 ∉ errs → Built mem₀ html mem (calls.flatMap HtmlCall.bytes) ∧
        ∀ call : HtmlCall, (calls.map HtmlCall.length).sum + call.length < 2 ^ 31 - 8192 →
          ∃ err html' mem', call.step html mem = some (err,html',mem') ∧ (err = 0 ↔ call.granted html)) ∧
      (-1 ∈ errs → Gone mem₀ html mem ∧
        ∀ later, HtmlCall.run later html mem = some (List.replicate later.length (-1),html,mem)) := by
  obtain ⟨errs,html,mem,ran,outcome⟩ := (Built.init mem₀).run (Nat.zero_le _) calls (by simpa using bound)
  refine ⟨errs,html,mem,ran,?_⟩
  rcases outcome with ⟨rfl,built,tight⟩ | ⟨⟨n,less,rfl⟩,gone⟩
  · refine ⟨⟨calls.length,Nat.le_refl _,by simp⟩,fun _ => ⟨built,fun call more => ?_⟩,fun failed => ?_⟩
    · have length := HtmlCall.bytes_sum calls
      rw [List.nil_append] at built tight
      obtain ⟨⟨err,html',mem'⟩,stepped,outcome⟩ := built.step call tight (by omega)
      refine ⟨err,html',mem',stepped,?_⟩
      cases outcome with
      | done granted => exact ⟨fun _ => granted,fun _ => rfl⟩
      | failed refused => exact ⟨nofun,fun granted => absurd granted refused⟩
    · exact absurd (List.eq_of_mem_replicate failed) (by decide)
  · refine ⟨⟨n,Nat.le_of_lt less,rfl⟩,fun none => ?_,fun _ => ⟨gone,gone.run⟩⟩
    refine absurd (List.mem_append_right _ ?_) none
    exact List.mem_replicate.mpr ⟨by omega,rfl⟩

/-- A page whose calls are granted whatever it holds takes them all. -/
theorem Built.run_granted (built : Built mem₀ html mem text) (tight : html.size.toNat ≤ text.length + 4097)
    {calls : List HtmlCall}
    (bound : text.length + (calls.map HtmlCall.length).sum < 2 ^ 31 - 8192) (granted : ∀ call ∈ calls, ∀ html,
      call.granted html) :
    ∃ html' mem', HtmlCall.run calls html mem = some (List.replicate calls.length 0,html',mem') := by
  induction calls generalizing html mem text with
  | nil => exact ⟨html,mem,rfl⟩
  | cons call calls ih =>
    rw [List.map_cons,List.sum_cons] at bound
    have added := call.bytes_length
    obtain ⟨here,later⟩ := List.forall_mem_cons.mp granted
    obtain ⟨r,stepped,outcome⟩ := built.step call tight (by omega)
    cases outcome with
    | done _ built' tight' =>
      obtain ⟨html',mem',ran⟩ := ih built' tight' (by rw [List.length_append]; omega) later
      exact ⟨html',mem',by simp [HtmlCall.run,stepped,ran,List.replicate_succ]⟩
    | failed refused => exact absurd (here html) refused

/-- A print, a file that fills the block to its last byte, and a print that finds no room for its zero. -/
def fullPage : List HtmlCall :=
  [.printf ⟨List.replicate 4095 97,fun _ => none,some fun _ => 0⟩,
   .incl ⟨.file 4097 (some (List.replicate 4097 98)),some fun _ => 0⟩,
   .printf ⟨[99],fun _ => none,some fun _ => 0⟩]

theorem fullPage_length : (fullPage.map HtmlCall.length).sum = 8193 := by
  simp [fullPage,HtmlCall.length,-List.reduceReplicate]

theorem fullPage_granted : ∀ call ∈ fullPage, ∀ html, call.granted html := by
  simp [fullPage,HtmlCall.granted,-List.reduceReplicate]

theorem htmlPages_full : ∃ html mem, HtmlCall.run fullPage banoHtmlInit Heap.empty = some ([0,0,0],html,mem) ∧
    Built Heap.empty html mem (List.replicate 4095 97 ++ List.replicate 4097 98 ++ [99]) ∧
    12288 ≤ html.size.toNat := by
  obtain ⟨errs,html,mem,ran,_,built,_⟩ := htmlPages fullPage Heap.empty (by rw [fullPage_length]; decide)
  obtain ⟨_,_,all⟩ := (Built.init Heap.empty).run_granted (Nat.zero_le _)
    (show _ < 2 ^ 31 - 8192 by rw [fullPage_length]; decide) fullPage_granted
  obtain ⟨rfl,_⟩ := Prod.mk.inj (Option.some.inj (ran.symm.trans all))
  have page := (built (by decide)).1
  have text : fullPage.flatMap HtmlCall.bytes = List.replicate 4095 97 ++ List.replicate 4097 98 ++ [99] := by
    simp [fullPage,HtmlCall.bytes,-List.reduceReplicate]
  rw [text] at page
  refine ⟨html,mem,ran,page,?_⟩
  have off : html.off.toNat = 8193 := page.off.trans (by simp [-List.reduceReplicate])
  obtain ⟨pages,size⟩ := page.whole
  have room := page.room
  omega

end Bano
