import Mathlib.Data.List.DropRight
import Bano.Buffers

/-! Which file an include opens, from the directory of the top file and the token that follows the directive. -/
namespace Bano

open Lib Relation

/-- Everything up to the last slash and with it. -/
def dirPart (path : List UInt8) : List UInt8 := path.rdropWhile (· ≠ '/'.toUInt8)

/-- The token that follows .include, and where it ends. -/
def includeToken (s : List UInt8) : Option (List UInt8 × Nat) :=
  let tok := nextToken s
  if isIncludeDirective ((s.drop tok.1).take tok.2) then
    let i := tok.1 + tok.2
    let tok := nextToken (s.drop i)
    if tok.2 = 0 then none else some ((s.drop (i + tok.1)).take tok.2,i + tok.1 + tok.2)
  else none

/-- What parse_directive does with a path; the directive has `n` bytes. -/
def includeFile (fs : FileSystem) (nested : BanoParser → Ptr → List UInt8 → Outcome (Option Nat × BanoParser))
    (parser : BanoParser)
    (n : Nat) (path : List UInt8) : Outcome (Option Nat × BanoParser) :=
  match allocMmapBuf fs parser path with
  | none => .done (none,parser)
  | some (buf,data,parser) => do
    match ← nested parser buf data with
    | (none,parser) =>
      let parser ← freeBuf parser buf
      .done (none,parser)
    | (some _,parser) => .done (some n,{ parser with bufs := parser.bufs ++ [buf] })

theorem nextToken_length (s : List UInt8) :
    ((s.drop (nextToken s).1).take (nextToken s).2).length = (nextToken s).2 := by
  have bound := nextToken_le s
  rw [List.length_take,List.length_drop]
  omega

/-- The directive is one, and a token follows it. -/
theorem includeToken_cases (token : includeToken s = some (t,n)) :
    (nextToken s).2 ≠ 0 ∧ s[(nextToken s).1]? = some '.'.toUInt8 ∧
      isIncludeDirective ((s.drop (nextToken s).1).take (nextToken s).2) = true ∧
      ∃ i, i = (nextToken s).1 + (nextToken s).2 ∧ (nextToken (s.drop i)).2 ≠ 0 ∧
        t.length = (nextToken (s.drop i)).2 ∧
        t = (s.drop (i + (nextToken (s.drop i)).1)).take (nextToken (s.drop i)).2 ∧
        n = i + (nextToken (s.drop i)).1 + (nextToken (s.drop i)).2 := by
  simp only [includeToken] at token
  split_ifs at token with known empty
  obtain ⟨rfl,rfl⟩ := Prod.mk.inj (Option.some.inj token)
  have word : (s.drop (nextToken s).1).take (nextToken s).2 = includeString := of_decide_eq_true known
  have size : (nextToken s).2 = 8 := by rw [← nextToken_length,word]; decide
  have dot : s[(nextToken s).1]? = some '.'.toUInt8 := by
    have first := congrArg (fun u : List UInt8 => u[0]?) word
    rw [size,show includeString[0]? = some '.'.toUInt8 by decide] at first
    simpa using first
  have length := nextToken_length (s.drop ((nextToken s).1 + (nextToken s).2))
  rw [List.drop_drop] at length
  exact ⟨by omega,dot,known,_,rfl,empty,length,rfl,rfl⟩

theorem parseDirective_includeToken {nested : BanoParser → Ptr → List UInt8 → Outcome (Option Nat × BanoParser)}
    (token : includeToken s = some (t,n)) : parseDirective fs nested parser s =
      if parserPathlen ≤ parser.topDir.length + t.length then .done (none,parser)
      else includeFile fs nested parser n (cstr (parser.topDir ++ t)) := by
  obtain ⟨some,dot,known,i,rfl,more,length,rfl,rfl⟩ := includeToken_cases token
  rw [length]
  simp only [parseDirective,if_neg some,dot,known,Outcome.ofOption_some,Outcome.bind_done,if_true]
  rw [if_neg (by decide)]
  by_cases long : parserPathlen ≤ parser.topDir.length + (nextToken (s.drop ((nextToken s).1 + (nextToken s).2))).2
  · rw [if_pos long,if_pos (.inr long)]
  · rw [if_neg long,if_neg (not_or.mpr ⟨more,long⟩)]
    rfl

theorem itemOf_includeToken (token : includeToken s = some (t,n)) (dir : List UInt8) : itemOf dir s =
    if parserPathlen ≤ dir.length + t.length then .bad else .incl (cstr (dir ++ t)) n := by
  obtain ⟨some,dot,known,i,rfl,more,length,rfl,rfl⟩ := includeToken_cases token
  rw [length]
  simp only [itemOf,if_neg some,dot,known,Option.map_some,Option.getD_some,if_true]
  rw [if_pos (by decide)]
  by_cases long : parserPathlen ≤ dir.length + (nextToken (s.drop ((nextToken s).1 + (nextToken s).2))).2
  · rw [if_pos long,if_pos (.inr long)]
  · rw [if_neg long,if_neg (not_or.mpr ⟨more,long⟩)]

theorem lastSlash_spec (found : lastSlash path i j = some k) : '/'.toUInt8 ∉ path ∧ k = j ∨
    ∃ front back, path = front ++ '/'.toUInt8 :: back ∧ '/'.toUInt8 ∉ back ∧ k = i + front.length := by
  induction path generalizing i j with
  | nil => exact .inl ⟨List.not_mem_nil,(Option.some.inj found).symm⟩
  | cons c path ih =>
    rw [lastSlash] at found
    split at found
    · exact nomatch found
    · rcases ih found with ⟨absent,rfl⟩ | ⟨front,back,rfl,absent,rfl⟩
      · by_cases slash : c = '/'.toUInt8
        · exact .inr ⟨[],path,by rw [slash]; rfl,absent,by rw [if_pos slash]; rfl⟩
        · exact .inl ⟨by simp [Ne.symm slash,absent],if_neg slash⟩
      · exact .inr ⟨c :: front,back,rfl,absent,by rw [List.length_cons]; omega⟩

theorem dirPart_slash (front : List UInt8) {back : List UInt8} (absent : '/'.toUInt8 ∉ back) :
    dirPart (front ++ '/'.toUInt8 :: back) = front ++ ['/'.toUInt8] := by
  induction back using List.reverseRecOn with
  | nil => exact List.rdropWhile_concat_neg _ _ _ (by simp)
  | append_singleton back c ih =>
    have other : c ≠ '/'.toUInt8 := fun same => absent (by simp [same])
    have drop := List.rdropWhile_concat_pos (fun c => decide (c ≠ '/'.toUInt8)) (front ++ '/'.toUInt8 :: back) c
      (decide_eq_true other)
    rw [← List.cons_append,← List.append_assoc]
    exact drop.trans (ih fun member => absent (List.mem_append_left _ member))

/-- A path without a slash leaves its first byte in `top_dir`. -/
theorem getDirname_spec (dirname : getDirname path = some dir) :
    '/'.toUInt8 ∉ path ∧ dirPart path = [] ∧ dir = (path ++ [0]).take 1 ∨ '/'.toUInt8 ∈ path ∧
    dir = dirPart path := by
  obtain ⟨k,found,rfl⟩ := Option.map_eq_some_iff.mp dirname
  rcases lastSlash_spec found with ⟨absent,rfl⟩ | ⟨front,back,rfl,absent,rfl⟩
  · refine .inl ⟨absent,List.rdropWhile_eq_nil_iff.mpr fun c member => ?_,rfl⟩
    exact decide_eq_true fun same => absent (same ▸ member)
  · refine .inr ⟨by simp,?_⟩
    rw [dirPart_slash front absent,Nat.zero_add]
    simp [List.take_append]

/-- At `s` the file of this path is opened, whatever it holds. -/
def Opens (dir s path : List UInt8) : Prop :=
  ∀ fs nested parser, parser.topDir = dir → ∃ n,
    parseDirective fs nested parser s = includeFile fs nested parser n path

/-- The include opens the file next to the top file, or the load fails because the path does not fit. -/
def Resolves (fs : FileSystem) (dir path s t : List UInt8) : Prop :=
  (dirPart path).length + t.length < parserPathlen ∧ Opens dir s (dirPart path ++ t) ∨
    parserPathlen ≤ (dirPart path).length + t.length ∧ ∀ fuel parser,
      banoParserLoadFile fs fuel path ≠ .done (0,parser)

theorem opens_includeToken (token : includeToken s = some (t,n)) (fits : dir.length + t.length < parserPathlen) :
    Opens dir s (cstr (dir ++ t)) := by
  rintro fs nested parser rfl
  exact ⟨n,(parseDirective_includeToken token).trans (if_neg (Nat.not_le.mpr fits))⟩

/-- A file system of one file tells which path is opened. -/
theorem Opens.path {path : List UInt8} (opened : Opens dir s path) (token : includeToken s = some (t,n)) :
    dir.length + t.length < parserPathlen ∧ cstr (dir ++ t) = path := by
  obtain ⟨m,one⟩ := opened (fun q => if q = path then some [0] else none) (fun parser _ _ => .done (some 0,parser))
    ⟨dir,[],[],Heap.empty⟩ rfl
  rw [parseDirective_includeToken token] at one
  by_cases long : parserPathlen ≤ dir.length + t.length
  · simp [long,includeFile,allocMmapBuf] at one
  · refine ⟨Nat.not_le.mp long,?_⟩
    by_contra other
    simp [long,includeFile,allocMmapBuf,other] at one

/-- Where an accepted file gets to, it goes on being accepted. -/
theorem Visits.accepted {top : List UInt8} (visits : Visits fs dir top depth path i)
    (accepted : ∀ s, opens fs top = some s → Accepted fs dir s 0) (opened : opens fs path = some s) :
    Accepted fs dir s i := by
  induction visits generalizing s with
  | start => exact accepted s opened
  | @next depth path i s' j _ opened' before call ih =>
    obtain rfl := Option.some.inj (opened.symm.trans opened')
    have here := ih opened
    have item := call_item call
    cases here with
    | atEnd => exact absurd rfl before
    | skip _ found rest =>
      rw [found] at item
      exact item ▸ rest
    | incl _ found _ _ rest =>
      rw [found] at item
      exact item.1 ▸ rest
  | @enter depth path i s' other n _ opened' before found ih =>
    have here := ih opened'
    cases here with
    | atEnd => exact absurd rfl before
    | skip _ found' _ =>
      rw [found] at found'
      exact nomatch found'
    | incl _ found' opened'' inner _ =>
      rw [found] at found'
      obtain ⟨rfl,_⟩ := Item.incl.inj found'
      exact Option.some.inj (opened''.symm.trans opened) ▸ inner

theorem load_accepted (dirname : getDirname path = some dir)
    (loaded : banoParserLoadFile fs fuel path = .done (0,parser)) :
    ∀ s, opens fs path = some s → Accepted fs dir s 0 := by
  intro s opened
  apply scan_accepted
  rcases scan_returns fs dir fuel s 0 with running | ⟨ok,done⟩
  · have agrees : Agrees (topParser dir s) s.length (scan fs dir fuel s 0) (parseBuf fs fuel (topParser dir s) 0 s) :=
      parseBufFrom_scan (Nat.zero_le _)
    rw [running] at agrees
    have stuck : parseBuf fs fuel ⟨dir,[0],[],Heap.empty.alloc s⟩ 0 s = .running := agrees
    simp [banoParserLoadFile,dirname,allocMmapBuf_opens,opened,mapFile,stuck] at loaded
  · cases ok with
    | false => simp [load_fault dirname opened done] at loaded
    | true => exact done

/-- An include that does not fit makes the load fail. -/
theorem load_long (dirname : getDirname path = some dir) (visits : Visits fs dir path depth q i)
    (opened : opens fs q = some s)
    (token : includeToken (s.drop i) = some (t,n)) (long : parserPathlen ≤ dir.length + t.length) (fuel : Nat)
    (parser : BanoParser) :
    banoParserLoadFile fs fuel path ≠ .done (0,parser) := by
  intro loaded
  have accepted := visits.accepted (load_accepted dirname loaded) opened
  have item := itemOf_includeToken token dir
  rw [if_pos long] at item
  cases accepted with
  | atEnd => simp [includeToken,nextToken,tokenSize] at token
  | skip _ found _ => simp [item] at found
  | incl _ found _ _ _ => simp [item] at found

theorem cstr_nul : 0 ∉ cstr s := by
  intro member
  have := List.mem_takeWhile_imp member
  simp at this

theorem cstr_eq_self (clear : 0 ∉ s) : cstr s = s := by
  apply List.takeWhile_eq_self_iff.mpr
  intro c member
  exact decide_eq_true fun same => clear (same ▸ member)

/-- Every include met in a load is resolved next to the top file if and only if its path
would not fit, or the path of the top file has a slash and the token no NUL. -/
theorem includes_iff (fs : FileSystem) (string : 0 ∉ path) (dirname : getDirname path = some dir)
    (visits : Visits fs dir path depth q i) (opened : opens fs q = some s)
    (token : includeToken (s.drop i) = some (t,n)) :
    Resolves fs dir path (s.drop i) t ↔
      parserPathlen ≤ (dirPart path).length + t.length ∨ '/'.toUInt8 ∈ path ∧ 0 ∉ t := by
  have more : t ≠ [] := by
    obtain ⟨_,_,_,_,_,some,length,_,_⟩ := includeToken_cases token
    rintro rfl
    exact some length.symm
  constructor
  · rintro (⟨fits,exact'⟩ | ⟨long,_⟩)
    · right
      obtain ⟨_,same⟩ := exact'.path token
      have clear : 0 ∉ t := fun member => cstr_nul (same ▸ List.mem_append_right _ member)
      refine ⟨?_,clear⟩
      rcases getDirname_spec dirname with ⟨_,none,first⟩ | ⟨slash,_⟩
      · have whole : cstr (dir ++ t) = t := by rw [same,none,List.nil_append]
        obtain ⟨c,rfl⟩ : ∃ c, dir = [c] := List.length_eq_one_iff.mp (by rw [first]; simp)
        by_cases nul : c = 0
        · exact absurd (show t = [] from whole.symm.trans (by rw [nul]; rfl)) more
        · have longer : cstr ([c] ++ t) = c :: t := cstr_eq_self (by simp [Ne.symm nul,clear])
          exact absurd (congrArg List.length (longer.symm.trans whole)) (by simp)
      · exact slash
    · exact .inl long
  · intro condition
    by_cases long : parserPathlen ≤ (dirPart path).length + t.length
    · refine .inr ⟨long,fun fuel parser => load_long dirname visits opened token ?_ fuel parser⟩
      rcases getDirname_spec dirname with ⟨_,none,_⟩ | ⟨_,rfl⟩
      · rw [none] at long
        exact Nat.le_trans long (Nat.add_le_add_right (Nat.zero_le _) _)
      · exact long
    · obtain ⟨slash,clear⟩ := condition.resolve_left long
      rcases getDirname_spec dirname with ⟨absent,_⟩ | ⟨_,rfl⟩
      · exact absurd slash absent
      · have inside : 0 ∉ dirPart path ++ t := by
          rw [List.mem_append,not_or]
          exact ⟨fun member => string ((List.rdropWhile_prefix _ _).subset member),clear⟩
        have opens := opens_includeToken token (Nat.not_le.mp long)
        rw [cstr_eq_self inside] at opens
        exact .inl ⟨Nat.not_le.mp long,opens⟩

/-- The file /a, which includes b. -/
def slashFiles : FileSystem := fun path =>
  if path = "/a".toList.map Char.toUInt8 then some (".include b".toList.map Char.toUInt8) else none

theorem includes_slash : Resolves slashFiles ['/'.toUInt8] ("/a".toList.map Char.toUInt8)
    (".include b".toList.map Char.toUInt8) ['b'.toUInt8] :=
  (includes_iff slashFiles (by decide)
    (show getDirname ("/a".toList.map Char.toUInt8) = some ['/'.toUInt8] by decide) .start
    (show opens slashFiles _ = some (".include b".toList.map Char.toUInt8) by decide)
    (show includeToken _ = some (['b'.toUInt8],10) by decide)).mpr (.inr (by decide))

/-- The file conf, which includes x. -/
def confFile : FileSystem := fun path =>
  if path = "conf".toList.map Char.toUInt8 then some (".include x".toList.map Char.toUInt8) else none

/-- The include of conf opens cx. -/
theorem includes_conf : ¬∀ (fs : FileSystem) (path dir q s t : List UInt8) (depth i n : Nat), 0 ∉ path →
    getDirname path = some dir →
    Visits fs dir path depth q i → opens fs q = some s → includeToken (s.drop i) = some (t,n) →
    Resolves fs dir path (s.drop i) t := by
  intro all
  have token : includeToken ((".include x".toList.map Char.toUInt8).drop 0) = some (['x'.toUInt8],10) := by decide
  rcases all confFile ("conf".toList.map Char.toUInt8) ['c'.toUInt8] ("conf".toList.map Char.toUInt8)
    (".include x".toList.map Char.toUInt8) ['x'.toUInt8] 0 0 10 (by decide) (by decide) .start (by decide) token with
    ⟨_,opened⟩ | ⟨long,_⟩
  · exact absurd (opened.path token).2 (by decide)
  · exact absurd long (by decide)

end Bano
