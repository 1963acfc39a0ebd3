import PlotScript.Proofs.Backtracking
import PlotScript.Proofs.EntryIds

/-! What an action keeps: said by what holds before it, what holds behind it, and what is left where
it ends with a fault. Everywhere the state brings no commands of its own, so that every command in
a text is one that the grammar writes. -/

namespace PlotScript
open Compile Grammar Latex

/-- A text without commands. -/
def Bare (text : String) : Prop := '\\' ∉ text.toList

instance (text : String) : Decidable (Bare text) := inferInstanceAs (Decidable (_ ∉ _))

theorem Bare.append {a b : String} (ha : Bare a) (hb : Bare b) : Bare (a ++ b) := by
  unfold Bare
  rw [String.toList_append, List.mem_append, not_or]
  exact ⟨ha, hb⟩

theorem Bare.intercalate {separator : String} {texts : List String} (hseparator : Bare separator)
    (htexts : ∀ text ∈ texts, Bare text) : Bare (separator.intercalate texts) := by
  induction texts with
  | nil => exact List.not_mem_nil
  | cons text texts ih =>
    have hlater := ih fun other h => htexts other (List.mem_cons_of_mem text h)
    have htext := htexts text List.mem_cons_self
    cases texts with
    | nil => simpa using htext
    | cons other texts =>
      rw [String.intercalate_cons_cons]
      exact (htext.append hseparator).append hlater

theorem bare_repr (n : Nat) : Bare n.repr := by
  rw [Bare, Nat.toList_repr]
  intro hmem
  exact absurd (List.all_eq_true.mp (Lexer.all_isDigit_toDigits n) _ hmem) (by decide)

theorem bare_of_name? {t : Token} (ht : Bare t.shown) {name : String} (h : t.name? = some name) :
    Bare name := by
  unfold Token.name? at h
  split at h
  · cases h
    exact ht
  · cases h

theorem bare_of_text? {t : Token} (ht : Bare t.shown) {text : String} (h : t.text? = some text) :
    Bare text := by
  cases t with
  | numeral n => cases h
  | word kind own =>
    cases h
    exact ht

theorem mem_substituteFrom {old new cs : List Char} {skip : Nat} {x : Char}
    (h : x ∈ Text.substituteFrom old new skip cs) : x ∈ new ∨ x ∈ cs := by
  induction cs generalizing skip with
  | nil => simp [Text.substituteFrom] at h
  | cons c cs ih =>
    have hlater : ∀ {skip}, x ∈ Text.substituteFrom old new skip cs → x ∈ new ∨ x ∈ c :: cs :=
      fun hx => (ih hx).imp_right (List.mem_cons_of_mem c)
    cases skip with
    | succ skip => exact hlater h
    | zero =>
      rw [Text.substituteFrom] at h
      split at h
      · exact (List.mem_append.mp h).elim .inl hlater
      · rcases List.mem_cons.mp h with rfl | hx
        · exact .inr List.mem_cons_self
        · exact hlater hx

theorem bare_substitute {text new : String} (htext : Bare text) (hnew : Bare new) (old : String) :
    Bare (Text.substitute text old new) := by
  unfold Bare Text.substitute
  rw [String.toList_ofList]
  exact fun hmem => (mem_substituteFrom hmem).elim hnew htext

namespace Lexer

theorem bare_of_next? {before : Option Char} {cs : List Char} {m : Match} {t : Token}
    (hcs : '\\' ∉ cs) (hm : next? before cs = some m) (ht : m.token? = some t) : Bare t.shown := by
  have hlexeme : '\\' ∉ m.lexeme := by
    rw [← (splits_of_next? hm).1, List.mem_append, not_or] at hcs
    exact hcs.1
  unfold Match.token? at ht
  split at ht
  case h_3 =>
    cases ht
    exact bare_repr _
  all_goals cases ht
  all_goals
    rw [Bare, Token.shown, String.toList_ofList]
    exact hlexeme

/-- What is read from a text without commands has none either. -/
theorem bare_of_mem_read {text : String} {t : Token} (htext : Bare text)
    (h : t ∈ (read text).tokens) : Bare t.shown := by
  obtain ⟨before, cs, m, hsuffix, hm, -, ht⟩ := exists_lexeme_of_mem_readAfter h
  exact bare_of_next? (fun hmem => htext (hsuffix.subset hmem)) hm ht

end Lexer

namespace Place
variable {α : Type} {xs ys : Array α} {place : Int} {x : α}

theorem mem_of_mem_extract {i j : Nat} (h : x ∈ xs.extract i j) : x ∈ xs := by
  obtain ⟨k, hk, rfl⟩ := Array.mem_extract_iff_getElem.mp h
  exact Array.getElem_mem _

theorem mem_of_mem_splice {block : List α} (h : x ∈ splice xs place block) :
    x ∈ xs ∨ x ∈ block := by
  unfold splice at h
  split at h
  · simp only [Array.mem_append, List.mem_toArray] at h
    rcases h with (hfront | hblock) | hrest
    · exact .inl (mem_of_mem_extract hfront)
    · exact .inr hblock
    · exact .inl (mem_of_mem_extract hrest)
  · simp only [Array.mem_append, List.mem_toArray, List.mem_reverse] at h
    rcases h with (hfront | hblock) | hrest
    · exact .inl (mem_of_mem_extract hfront)
    · exact .inr hblock
    · exact .inl (mem_of_mem_extract hrest)

theorem mem_of_mem_erase? (h : erase? xs place = some ys) (hx : x ∈ ys) : x ∈ xs := by
  obtain ⟨i, -, rfl⟩ := Option.map_eq_some_iff.mp h
  unfold Array.eraseIdxIfInBounds at hx
  split at hx
  · exact Array.mem_of_mem_eraseIdx hx
  · exact hx

end Place

/-- No token, name or macro of the state has a command in it, and no module brings one. -/
structure Compiler.IsBare (c : Compiler) : Prop where
  tokens : ∀ t ∈ c.tokens, Bare t.shown
  current : ∀ t, c.current = some t → Bare t.shown
  scope : ∀ name ∈ c.scope, Bare name
  functions : ∀ name ∈ c.functions, Bare name
  macros : ∀ m ∈ c.macros, Bare m.name ∧ Bare m.body
  objectName : Bare c.objectName
  modules : ∀ name text, Library.find c.files name = .ok text →
    ∀ t ∈ (Lexer.read text).tokens, Bare t.shown

/-- The change has nothing to do with commands, scopes and entries. -/
structure Beside (c d : Compiler) : Prop where
  tokens : d.tokens = c.tokens
  current : d.current = c.current
  scope : d.scope = c.scope
  functions : d.functions = c.functions
  macros : d.macros = c.macros
  objectName : d.objectName = c.objectName
  files : d.files = c.files
  document : d.document = c.document
  target : d.target = c.target

theorem Beside.isBare {c d : Compiler} (h : Beside c d) (hc : c.IsBare) : d.IsBare := by
  refine ⟨?_, ?_, ?_, ?_, ?_, ?_, ?_⟩
  · exact h.tokens ▸ hc.tokens
  · exact h.current ▸ hc.current
  · exact h.scope ▸ hc.scope
  · exact h.functions ▸ hc.functions
  · exact h.macros ▸ hc.macros
  · exact h.objectName ▸ hc.objectName
  · exact h.files ▸ hc.modules

/-- Tokens may be put in or taken out, as long as there are no commands among them. -/
theorem Compiler.IsBare.withTokens {c : Compiler} (h : c.IsBare) {tokens : Array Token}
    (htokens : ∀ t ∈ tokens, Bare t.shown) : Compiler.IsBare { c with tokens } :=
  ⟨htokens, h.current, h.scope, h.functions, h.macros, h.objectName, h.modules⟩

/-- Nothing is asked of the entries themselves. -/
theorem Compiler.IsBare.withEntries {c : Compiler} (h : c.IsBare) (lastId : Nat)
    (document : Option (Array Entry)) : Compiler.IsBare { c with lastId, document } :=
  ⟨h.tokens, h.current, h.scope, h.functions, h.macros, h.objectName, h.modules⟩

/-- The state brings no commands, at most `n` scopes are open, and the entries are as `S` says. -/
structure Keeps (n : Nat) (S : Option (Array Entry) → Target → Prop) (c : Compiler) : Prop where
  bare : c.IsBare
  depth : c.scope.length ≤ n
  entries : S c.document c.target

/-- A result with a state behind it, or a fault with what is left. -/
def Ends {α : Type} (lost : Fault → Compiler → Prop) (post : α → Compiler → Prop) :
    EStateM.Result Fault Compiler α → Prop
  | .ok a d => post a d
  | .error e d => lost e d

/-- What an action does, from a state of which `pre` holds. -/
def Holds {α : Type} (lost : Fault → Compiler → Prop) (pre : Compiler → Prop) (x : Compile α)
    (post : α → Compiler → Prop) : Prop :=
  ∀ c, pre c → Ends lost post (x c)

/-- A fault may come up wherever `pre` holds. -/
class Bears (lost : Fault → Compiler → Prop) (pre : Compiler → Prop) : Prop where
  lose : ∀ {c} (e : Fault), pre c → lost e c

namespace Holds
variable {α β : Type} {lost : Fault → Compiler → Prop} {pre : Compiler → Prop}

protected theorem bind {x : Compile α} {f : α → Compile β} {mid : α → Compiler → Prop}
    {post : β → Compiler → Prop} (hx : Holds lost pre x mid)
    (hf : ∀ a, Holds lost (mid a) (f a) post) : Holds lost pre (x >>= f) post := by
  intro c hc
  have hfirst := hx c hc
  rw [bind_apply]
  cases hrun : x c with
  | error e d =>
    rw [hrun] at hfirst
    exact hfirst
  | ok a d =>
    rw [hrun] at hfirst
    exact hf a d hfirst

theorem weaken {x : Compile α} {pre' : Compiler → Prop} {lost' : Fault → Compiler → Prop}
    {post post' : α → Compiler → Prop} (hx : Holds lost pre x post) (hpre : ∀ c, pre' c → pre c)
    (hpost : ∀ a c, post a c → post' a c) (hlost : ∀ e c, lost e c → lost' e c) :
    Holds lost' pre' x post' := by
  intro c hc
  have hend := hx c (hpre c hc)
  cases hrun : x c with
  | ok a d =>
    rw [hrun] at hend
    exact hpost a d hend
  | error e d =>
    rw [hrun] at hend
    exact hlost e d hend

theorem imp {x : Compile α} {post post' : α → Compiler → Prop} (hx : Holds lost pre x post)
    (hpost : ∀ a c, post a c → post' a c) : Holds lost pre x post' :=
  hx.weaken (fun _ => id) hpost fun _ _ => id

protected theorem pure {post : α → Compiler → Prop} (a : α) (h : ∀ c, pre c → post a c) :
    Holds lost pre (pure a : Compile α) post :=
  h

/-- The result is of no account. -/
theorem done (a : α) : Holds lost pre (pure a : Compile α) fun _ => pre := .pure a fun _ => id

protected theorem ite {p : Prop} [Decidable p] {x y : Compile α} {post : α → Compiler → Prop}
    (hx : Holds lost pre x post) (hy : Holds lost pre y post) :
    Holds lost pre (if p then x else y) post := by
  split
  · exact hx
  · exact hy

theorem get_bind {f : Compiler → Compile β} {post : β → Compiler → Prop}
    (h : ∀ c, pre c → Holds lost pre (f c) post) : Holds lost pre (get >>= f) post :=
  fun c hc => h c hc c hc

/-- What is known of a result already. -/
theorem knowing {p : Prop} {x : Compile α} {post : α → Compiler → Prop}
    (h : p → Holds lost pre x post) : Holds lost (fun c => p ∧ pre c) x post :=
  fun c hc => h hc.1 c hc.2

protected theorem discard {x : Compile α} {post : Compiler → Prop}
    (h : Holds lost pre x fun _ => post) : Holds lost pre (discard x) fun _ => post :=
  h.bind fun _ => done _

protected theorem atEnd (closers : List String) : Holds lost pre (atEnd closers) fun _ => pre := by
  refine get_bind fun c _ => ?_
  split
  · exact done _
  · exact done _

protected theorem firstOf {attempts : List (Compile Bool)}
    (h : ∀ x ∈ attempts, Holds lost pre x fun _ => pre) :
    Holds lost pre (firstOf attempts) fun _ => pre := by
  induction attempts with
  | nil => exact done _
  | cons x attempts ih =>
    refine (h x List.mem_cons_self).bind fun _ => .ite (done _) ?_
    exact ih fun y hy => h y (List.mem_cons_of_mem x hy)

section bears
variable [Bears lost pre]

protected theorem throw {post : α → Compiler → Prop} (e : Fault) :
    Holds lost pre (throw e : Compile α) post :=
  fun _ hc => Bears.lose e hc

protected theorem fail {post : α → Compiler → Prop} (message : String) :
    Holds lost pre (fail message : Compile α) post := by
  intro c hc
  rw [fail_apply]
  split
  · exact Bears.lose _ hc
  · exact Bears.lose _ hc

/-- A test, with a mistake where it fails. -/
protected theorem orFail {before : Compiler → Prop} {x : Compile Bool} {rest : Compile β}
    {post : β → Compiler → Prop} (hx : Holds lost before x fun _ => pre) (message : String)
    (h : Holds lost pre rest post) :
    Holds lost before (x >>= fun found => if found = true then rest else
      (fail message : Compile PUnit) >>= fun _ => rest) post :=
  hx.bind fun _ => .ite h ((Holds.fail message).bind fun _ => h)

/-- A repetition whose rounds go on as they began. -/
protected theorem loop {round : Compile Bool} {post : Compiler → Prop}
    (h : Holds lost pre round fun done c => if done = true then post c else pre c) (rounds : Nat) :
    Holds lost pre (loop round rounds) fun _ => post := by
  induction rounds with
  | zero => exact .throw _
  | succ rounds ih =>
    refine h.bind fun done => ?_
    cases done with
    | true => exact fun _ hc => hc
    | false => exact ih

theorem repeated {round : Compile Bool} (h : Holds lost pre round fun _ => pre) (rounds : Nat) :
    Holds lost pre (loop round rounds) fun _ => pre :=
  .loop (h.imp fun done c hc => by cases done <;> exact hc) rounds

protected theorem current : Holds lost pre current fun t c => pre c ∧ c.current = some t := by
  intro c hc
  cases hcurrent : c.current with
  | none =>
    have hnone : current c = .error .noToken c := by simp [current, hcurrent]
    rw [hnone]
    exact Bears.lose _ hc
  | some t =>
    have hsome : current c = .ok t c := by simp [current, hcurrent]
    rw [hsome]
    exact ⟨hc, hcurrent⟩

/-- The answer tells what the current token is. -/
theorem currentIs_eq (text : String) : Holds lost pre (currentIs text) fun found c =>
    pre c ∧ ∃ t, c.current = some t ∧ t.is text = found :=
  Holds.current.bind fun t => .pure _ fun _ hc => ⟨hc.1, t, hc.2, rfl⟩

protected theorem currentIs (text : String) : Holds lost pre (currentIs text) fun _ => pre :=
  (currentIs_eq text).imp fun _ _ hc => hc.1

/-- The answer tells what the token behind the current one is. -/
theorem nextIs_eq (text : String) : Holds lost pre (nextIs text) fun found c =>
    pre c ∧ ∃ t, Place.get? c.tokens (c.position + 1) = some t ∧ t.is text = found := by
  intro c hc
  cases hnext : Place.get? c.tokens (c.position + 1) with
  | none =>
    have hnone : nextIs text c = .error .outOfRange c := by simp [nextIs, peek, hnext]
    rw [hnone]
    exact Bears.lose _ hc
  | some t =>
    have hsome : nextIs text c = .ok (t.is text) c := by simp [nextIs, peek, hnext]
    rw [hsome]
    exact ⟨hc, t, hnext, rfl⟩

protected theorem nextIs (text : String) : Holds lost pre (nextIs text) fun _ => pre :=
  (nextIs_eq text).imp fun _ _ hc => hc.1

protected theorem resolve (path : List String) : Holds lost pre (resolve path) fun _ => pre := by
  refine get_bind fun c _ => ?_
  split
  · exact done _
  · exact .throw _

protected theorem wordText {t : Token} (ht : Bare t.shown) :
    Holds lost pre (wordText t) fun text c => Bare text ∧ pre c := by
  unfold Grammar.wordText
  split
  · next htext => exact .pure _ fun _ hc => ⟨bare_of_text? ht htext, hc⟩
  · exact .throw _

end bears

section keeps
variable {n m : Nat} {S : Option (Array Entry) → Target → Prop}

protected theorem modify {f : Compiler → Compiler} (h : ∀ c, c.IsBare → (f c).IsBare)
    (hdepth : ∀ c, c.scope.length ≤ n → (f c).scope.length ≤ m)
    (hdocument : ∀ c, (f c).document = c.document) (htarget : ∀ c, (f c).target = c.target) :
    Holds lost (Keeps n S) (modify f) fun _ => Keeps m S := by
  intro c hc
  refine ⟨h c hc.bare, hdepth c hc.depth, ?_⟩
  rw [hdocument, htarget]
  exact hc.entries

theorem beside {f : Compiler → Compiler} (h : ∀ c, Beside c (f c)) :
    Holds lost (Keeps n S) (modify f) fun _ => Keeps n S :=
  .modify (fun c => (h c).isBare) (fun c hdepth => (h c).scope ▸ hdepth) (fun c => (h c).document)
    fun c => (h c).target

protected theorem print (text : String) : Holds lost (Keeps n S) (print text) fun _ => Keeps n S :=
  beside fun _ => ⟨rfl, rfl, rfl, rfl, rfl, rfl, rfl, rfl, rfl⟩

theorem countLine (f : Compiler → Int) :
    Holds lost (Keeps n S) (modify fun c => { c with line := f c }) fun _ => Keeps n S :=
  beside fun _ => ⟨rfl, rfl, rfl, rfl, rfl, rfl, rfl, rfl, rfl⟩

protected theorem moveTo (place : Int) :
    Holds lost (Keeps n S) (moveTo place) fun _ => Keeps n S := by
  intro c hc
  unfold moveTo
  rw [modify_apply]
  have hbare := hc.bare
  cases hplace : Place.get? c.tokens place with
  | none =>
    refine ⟨⟨hbare.tokens, fun _ h => ?_, hbare.scope, hbare.functions, hbare.macros,
      hbare.objectName, hbare.modules⟩, hc.depth, hc.entries⟩
    cases h
  | some t =>
    obtain ⟨i, -, hi⟩ := Option.bind_eq_some_iff.mp hplace
    refine ⟨⟨hbare.tokens, fun _ h => ?_, hbare.scope, hbare.functions, hbare.macros,
      hbare.objectName, hbare.modules⟩, hc.depth, hc.entries⟩
    cases h
    exact hbare.tokens t (Array.mem_of_getElem? hi)

protected theorem pushScope {name : String} (hname : Bare name) :
    Holds lost (Keeps n S) (pushScope name) fun _ => Keeps (n + 1) S := by
  refine .modify (fun c h => ⟨h.tokens, h.current, fun own hown => ?_, h.functions, h.macros,
    h.objectName, h.modules⟩) (fun c h => ?_) (fun _ => rfl) fun _ => rfl
  · rcases List.mem_append.mp hown with hold | hnew
    · exact h.scope own hold
    · rw [List.mem_singleton.mp hnew]
      exact hname
  · rw [List.length_append]
    exact Nat.succ_le_succ h

protected theorem spliceAfter {block : List Token} (hblock : ∀ t ∈ block, Bare t.shown) :
    Holds lost (Keeps n S) (spliceAfter block) fun _ => Keeps n S := by
  refine .modify (fun c h => h.withTokens fun t ht => ?_) (fun _ => id) (fun _ => rfl)
    fun _ => rfl
  exact (Place.mem_of_mem_splice ht).elim (h.tokens t) (hblock t)

protected theorem rejoinCode : Holds lost (Keeps n S) rejoinCode fun _ => Keeps n S :=
  beside fun _ => ⟨rfl, rfl, rfl, rfl, rfl, rfl, rfl, rfl, rfl⟩

protected theorem updateLastMacro {update : MacroDef → MacroDef}
    (h : ∀ m, Bare m.name ∧ Bare m.body → Bare (update m).name ∧ Bare (update m).body) :
    Holds lost (Keeps n S) (updateLastMacro update) fun _ => Keeps n S := by
  refine .modify (fun c hc => ⟨hc.tokens, hc.current, hc.scope, hc.functions, fun m hm => ?_,
    hc.objectName, hc.modules⟩) (fun _ => id) (fun _ => rfl)
    fun _ => rfl
  rcases List.mem_append.mp hm with hold | hlast
  · exact hc.macros m (List.dropLast_subset _ hold)
  · obtain ⟨own, hown, rfl⟩ := List.mem_map.mp hlast
    exact h own (hc.macros own (List.mem_of_getLast? (Option.mem_toList.mp hown)))

section keeping
variable [Bears lost (Keeps n S)]

/-- The current token has no commands in it. -/
theorem current_bind {f : Token → Compile β} {post : β → Compiler → Prop}
    (h : ∀ t, Bare t.shown → Holds lost (Keeps n S) (f t) post) :
    Holds lost (Keeps n S) (current >>= f) post :=
  Holds.current.bind fun t c hc => h t (hc.1.bare.current t hc.2) c hc.1

protected theorem advance : Holds lost (Keeps n S) advance fun _ => Keeps n S := by
  refine current_bind fun t _ => .ite ((countLine _).bind fun _ => ?_) ?_
  · exact get_bind fun c _ => .moveTo _
  · exact get_bind fun c _ => .moveTo _

protected theorem retreat : Holds lost (Keeps n S) retreat fun _ => Keeps n S := by
  refine current_bind fun t _ => .ite ((countLine _).bind fun _ => ?_) ?_
  · exact get_bind fun c _ => .moveTo _
  · exact get_bind fun c _ => .moveTo _

protected theorem skipWhile (test : Token → Bool) :
    Holds lost (Keeps n S) (skipWhile test) fun _ => Keeps n S :=
  get_bind fun _ _ => repeated
    (current_bind fun _ _ => .ite (Holds.advance.bind fun _ => done _) (done _)) _

protected theorem setNames (names : Except Fault Table) :
    Holds lost (Keeps n S) (setNames names) fun _ => Keeps n S := by
  unfold setNames
  split
  · exact beside fun _ => ⟨rfl, rfl, rfl, rfl, rfl, rfl, rfl, rfl, rfl⟩
  · exact .throw _

protected theorem addName (path : List String) (name : String) (value : Binding) :
    Holds lost (Keeps n S) (addName path name value) fun _ => Keeps n S :=
  get_bind fun _ _ => .setNames _

protected theorem define {name : String} (hname : Bare name) :
    Holds lost (Keeps n S) (define name) fun _ => Keeps n S := by
  refine get_bind fun c _ => (Holds.addName _ _ _).bind fun _ => .bind ?_ fun _ => .print _
  exact .modify (fun _ h => ⟨h.tokens, h.current, h.scope, h.functions, h.macros, hname,
    h.modules⟩) (fun _ => id) (fun _ => rfl)
    fun _ => rfl

protected theorem reopenScope (name : String) :
    Holds lost (Keeps n S) (reopenScope name) fun _ => Keeps n S := by
  refine get_bind fun c _ => ?_
  split
  · exact .ite (get_bind fun _ _ => .setNames _) (done _)
  · exact .throw _
  · refine (Holds.resolve _).bind fun b => ?_
    split
    · exact done _
    · exact .throw _
  · exact .throw _

protected theorem popScope (h : n = m + 1) :
    Holds lost (Keeps n S) popScope fun _ => Keeps m S := by
  intro c hc
  unfold popScope
  rw [bind_apply, get_apply]
  dsimp only
  cases hempty : c.scope.isEmpty with
  | true => exact Bears.lose _ hc
  | false =>
    have hbare := hc.bare
    refine ⟨⟨hbare.tokens, hbare.current, fun name hname => ?_, hbare.functions, hbare.macros,
      hbare.objectName, hbare.modules⟩, ?_, hc.entries⟩
    · exact hbare.scope name (List.dropLast_subset _ hname)
    · have hdepth := hc.depth
      show c.scope.dropLast.length ≤ m
      rw [List.length_dropLast]
      omega

protected theorem dropToken : Holds lost (Keeps n S) dropToken fun _ => Keeps n S := by
  intro c hc
  unfold dropToken
  rw [bind_apply, get_apply]
  dsimp only
  cases herase : Place.erase? c.tokens c.position with
  | none => exact Bears.lose _ hc
  | some tokens =>
    have htokens : ∀ t ∈ tokens, Bare t.shown := fun t ht =>
      hc.bare.tokens t (Place.mem_of_mem_erase? herase ht)
    exact ⟨hc.bare.withTokens htokens, hc.depth, hc.entries⟩

protected theorem readTokens {text : String}
    (htokens : ∀ t ∈ (Lexer.read text).tokens, Bare t.shown) :
    Holds lost (Keeps n S) (readTokens text) fun tokens c =>
      (∀ t ∈ tokens, Bare t.shown) ∧ Keeps n S c := by
  have hplace : Holds lost (Keeps n S)
      (modify fun c => { c with position := (Lexer.read text).consumed }) fun _ => Keeps n S :=
    beside fun _ => ⟨rfl, rfl, rfl, rfl, rfl, rfl, rfl, rfl, rfl⟩
  unfold readTokens
  dsimp only
  split
  · exact .pure _ fun _ hc => ⟨htokens, hc⟩
  · exact hplace.bind fun _ => get_bind fun _ _ => .fail _
  · exact hplace.bind fun _ => .throw _

/-! Macros and imports write nothing. -/

omit [Bears lost (Keeps n S)] in
protected theorem nameObject {m : MacroDef} (hm : Bare m.name) :
    Holds lost (Keeps n S) (nameObject m) fun name c => Bare name ∧ Keeps n S c := by
  have hname : Holds lost (Keeps n S) (do return (← get).objectName) fun name c =>
      Bare name ∧ Keeps n S c :=
    get_bind fun c hc => .pure _ fun _ hd => ⟨hc.bare.objectName, hd⟩
  refine get_bind fun c _ => .ite (.bind ?_ fun _ => hname) hname
  exact .modify (fun _ h => ⟨h.tokens, h.current, h.scope, h.functions, h.macros,
    hm.append (by decide), h.modules⟩) (fun _ => id) (fun _ => rfl) fun _ => rfl

protected theorem expansion {m : MacroDef} (hname : Bare m.name) (hbody : Bare m.body)
    (parameters : List String) {text : String} (htext : Bare text) :
    Holds lost (Keeps n S) (expansion m parameters text) fun text c => Bare text ∧ Keeps n S c := by
  induction parameters generalizing text with
  | nil => exact .pure _ fun _ hc => ⟨htext, hc⟩
  | cons parameter others ih =>
    refine .ite ?_ ?_
    · refine (Holds.nameObject hname).bind fun object => knowing fun hobject => ?_
      refine Holds.retreat.bind fun _ => Holds.retreat.bind fun _ => ?_
      refine Holds.dropToken.bind fun _ => Holds.dropToken.bind fun _ => ?_
      have hspaced : Bare (" " ++ object) := .append (by decide) hobject
      exact ih (bare_substitute hbody hspaced _)
    · refine (Holds.currentIs _).bind fun _ => .ite (ih htext) (current_bind fun t ht => ?_)
      refine (Holds.wordText ht).bind fun argument => knowing fun hargument => ?_
      exact ih (bare_substitute hbody hargument _)

protected theorem macroCall : Holds lost (Keeps n S) macroCall fun _ => Keeps n S := by
  refine (Holds.nextIs _).bind fun _ => .ite (current_bind fun t _ => ?_) (done _)
  refine get_bind fun c hc => ?_
  split
  · exact .fail _
  · next m hm =>
    obtain ⟨hname, hbody⟩ := hc.bare.macros m (List.mem_of_find?_eq_some hm)
    refine Holds.advance.bind fun _ => Holds.advance.bind fun _ => ?_
    refine (Holds.currentIs _).orFail _ (Holds.advance.bind fun _ => ?_)
    refine (Holds.expansion hname hbody _ hbody).bind fun text => knowing fun htext => ?_
    refine Holds.advance.bind fun _ => (Holds.spliceAfter (by decide)).bind fun _ => ?_
    refine (Holds.readTokens fun t ht => Lexer.bare_of_mem_read htext ht).bind fun tokens => ?_
    refine knowing fun htokens => (Holds.spliceAfter ?_).bind fun _ => ?_
    · exact List.forall_mem_cons.mpr ⟨by decide, htokens⟩
    · exact Holds.rejoinCode.bind fun _ => done _

protected theorem importModule : Holds lost (Keeps n S) importModule fun _ => Keeps n S := by
  refine (Holds.currentIs _).bind fun _ => .ite (Holds.advance.bind fun _ => ?_) (done _)
  refine current_bind fun t ht => (Holds.wordText ht).bind fun name => knowing fun hname => ?_
  refine get_bind fun c hc => ?_
  have hmodule : ∀ text, Library.find c.files name = .ok text →
      Holds lost (Keeps n S) (spliceModule name text) fun _ => Keeps n S := by
    intro text hfind
    refine Holds.advance.bind fun _ => Holds.advance.bind fun _ => Holds.advance.bind fun _ => ?_
    refine (Holds.readTokens (hc.bare.modules name text hfind)).bind fun tokens => ?_
    refine knowing fun htokens => (Holds.spliceAfter ?_).bind fun _ => .rejoinCode
    intro t ht
    simp only [moduleTokens, List.mem_append, List.mem_cons, List.not_mem_nil, or_false] at ht
    rcases ht with ((rfl | rfl | rfl | rfl) | ht) | rfl | rfl
    · decide
    · exact hname
    · decide
    · decide
    · exact htokens t ht
    · decide
    · decide
  split
  · next text hfind => exact (hmodule text hfind).bind fun _ => done _
  · exact (Holds.print _).bind fun _ => done _
  · exact .throw _

end keeping

protected theorem macroDefinition [∀ n, Bears lost (Keeps n S)] :
    Holds lost (Keeps n S) macroDefinition fun _ => Keeps n S := by
  have hparameter : Holds lost (Keeps (n + 1) S) macroParameter fun _ => Keeps (n + 1) S := by
    refine (Holds.currentIs _).bind fun _ => .ite (done _) (current_bind fun t _ => ?_)
    split
    · exact .fail _
    · refine get_bind fun c _ => (Holds.addName _ _ _).bind fun _ => ?_
      refine .bind (.updateLastMacro fun _ hm => hm) fun _ => Holds.advance.bind fun _ => ?_
      refine (Holds.currentIs _).bind fun _ => .ite (Holds.advance.bind fun _ => done _) ?_
      refine (Holds.currentIs _).orFail _ (.bind (.updateLastMacro ?_) fun _ => ?_)
      · exact fun m hm => ⟨hm.1, hm.2.append (by decide)⟩
      · exact Holds.advance.bind fun _ => done _
  have hbody : ∀ steps depth,
      Holds lost (Keeps (n + 1) S) (macroBody steps depth) fun _ => Keeps (n + 1) S := by
    intro steps
    induction steps with
    | zero => exact fun _ => .throw _
    | succ steps ih =>
      intro depth
      refine current_bind fun t ht => .ite (done _) (.bind (.updateLastMacro ?_) fun _ => ?_)
      · exact fun m hm => ⟨hm.1, hm.2.append ht⟩
      · exact Holds.advance.bind fun _ => ih _
  refine (Holds.currentIs _).bind fun _ => .ite (Holds.advance.bind fun _ => ?_) (done _)
  refine current_bind fun t ht => ?_
  split
  · exact .fail _
  · next name hname =>
    have hbare := bare_of_name? ht hname
    refine .bind (.modify (fun c h => ⟨h.tokens, h.current, h.scope, h.functions, fun m hm => ?_,
      h.objectName, h.modules⟩) (fun _ => id) (fun _ => rfl) fun _ => rfl) fun _ => ?_
    · rcases List.mem_append.mp hm with hold | hnew
      · exact h.macros m hold
      · rw [List.mem_singleton.mp hnew]
        exact ⟨hbare, List.not_mem_nil⟩
    refine get_bind fun c _ => (Holds.addName _ _ _).bind fun _ => ?_
    refine (Holds.pushScope hbare).bind fun _ => Holds.advance.bind fun _ => ?_
    refine (Holds.currentIs _).orFail _ (Holds.advance.bind fun _ => ?_)
    refine (Holds.currentIs _).orFail _ (Holds.advance.bind fun _ => ?_)
    refine get_bind fun c _ => (repeated hparameter _).bind fun _ => ?_
    refine (Holds.currentIs _).orFail _ (Holds.advance.bind fun _ => ?_)
    refine get_bind fun c _ => (hbody _ _).bind fun _ => .bind (.updateLastMacro ?_) fun _ => ?_
    · intro m hm
      refine ⟨hm.1, ?_⟩
      rw [Bare, String.toList_ofList]
      exact fun hmem => hm.2 (List.mem_of_mem_drop hmem)
    · exact (Holds.popScope rfl).bind fun _ => done _

end keeps
end Holds
end PlotScript
