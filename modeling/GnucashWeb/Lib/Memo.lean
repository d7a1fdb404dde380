import Mathlib.Data.List.Forall2
import Mathlib.Data.Set.Basic
import Mathlib.Logic.Function.Basic
import Mathlib.Logic.Relation

/-!
# Memoized recursion

A recursive computation of answers that keeps every answer it has computed in a cache, cuts off a
request that it is already computing, and follows requests to a bounded depth.  An answer that
depends on a cut is kept like any other, so a shared cache can change later answers.
`calls_eq_fresh`: it does not when calls whose requests meet in a key are shallow and agree on the
requests of every key.
-/

namespace Memo

/-! ## Dialogues -/

/-- A computation that reads facts and asks for the answers of requests. -/
inductive Dialogue (R : Type) (B : R → Type) (Q A α : Type)
  | done (a : α)
  | read (r : R) (next : B r → Dialogue R B Q A α)
  | ask (q : Q) (next : A → Dialogue R B Q A α)

variable {R : Type} {B : R → Type} {Q K A α β : Type}

namespace Dialogue

protected def bind (d : Dialogue R B Q A α) (f : α → Dialogue R B Q A β) : Dialogue R B Q A β :=
  match d with
  | done a => f a
  | read r next => read r fun b => (next b).bind f
  | ask q next => ask q fun a => (next a).bind f

instance : Monad (Dialogue R B Q A) where
  pure := done
  bind := Dialogue.bind

/-- The result with the given facts and answers. -/
def eval (source : (r : R) → B r) (answer : Q → A) : Dialogue R B Q A α → α
  | done a => a
  | read r next => (next (source r)).eval source answer
  | ask q next => (next (answer q)).eval source answer

/-- A request is asked, after some answers to the ones before it. -/
def Asks (source : (r : R) → B r) : Dialogue R B Q A α → Q → Prop
  | done _, _ => False
  | read r next, q => (next (source r)).Asks source q
  | ask p next, q => q = p ∨ ∃ a, (next a).Asks source q

variable {source : (r : R) → B r}

theorem eval_congr {f g : Q → A} {d : Dialogue R B Q A α}
    (h : ∀ q, d.Asks source q → f q = g q) : d.eval source f = d.eval source g := by
  induction d with
  | done a => rfl
  | read r next ih => exact ih _ h
  | ask q next ih =>
    rw [eval, eval, h q (.inl rfl)]
    exact ih _ fun p hp => h p (.inr ⟨_, hp⟩)

theorem asks_bind {d : Dialogue R B Q A α} {f : α → Dialogue R B Q A β} {q : Q}
    (h : (d >>= f).Asks source q) : d.Asks source q ∨ ∃ a, (f a).Asks source q := by
  induction d with
  | done a => exact .inr ⟨a, h⟩
  | read r next ih => exact ih _ h
  | ask p next ih =>
    rcases h with rfl | ⟨a, ha⟩
    · exact .inl (.inl rfl)
    · exact (ih a ha).imp_left fun h => .inr ⟨a, h⟩

theorem asks_foldlM {γ : Type} {f : β → γ → Dialogue R B Q A β} {l : List γ} {init : β} {q : Q}
    (h : (l.foldlM f init).Asks source q) : ∃ x ∈ l, ∃ b, (f b x).Asks source q := by
  induction l generalizing init with
  | nil => exact absurd h id
  | cons x l ih =>
    rw [List.foldlM_cons] at h
    rcases asks_bind h with h | ⟨b, h⟩
    · exact ⟨x, List.mem_cons_self, init, h⟩
    · obtain ⟨y, hy, hb⟩ := ih h
      exact ⟨y, List.mem_cons_of_mem _ hy, hb⟩

/-- Whatever its requests are answered, a computation results in this. -/
def Yields (source : (r : R) → B r) (post : α → Prop) : Dialogue R B Q A α → Prop
  | done a => post a
  | read r next => (next (source r)).Yields source post
  | ask _ next => ∀ a, (next a).Yields source post

theorem yields_bind_of_forall {d : Dialogue R B Q A α} {f : α → Dialogue R B Q A β}
    {post : β → Prop} (hf : ∀ a, (f a).Yields source post) : (d >>= f).Yields source post := by
  induction d with
  | done a => exact hf a
  | read r next ih => exact ih _
  | ask q next ih => exact fun a => ih a

theorem Yields.bind {d : Dialogue R B Q A α} {f : α → Dialogue R B Q A β} {mid : α → Prop}
    {post : β → Prop} (h : d.Yields source mid) (hf : ∀ a, mid a → (f a).Yields source post) :
    (d >>= f).Yields source post := by
  induction d with
  | done a => exact hf a h
  | read r next ih => exact ih _ h
  | ask q next ih => exact fun a => ih a (h a)

theorem yields_foldlM {γ δ : Type} {f : β → γ → Dialogue R B Q A β} {g : δ → γ → δ}
    {rel : β → δ → Prop}
    (hf : ∀ b d x, rel b d → (f b x).Yields source fun b' => rel b' (g d x)) {l : List γ} {b : β}
    {d : δ} (h : rel b d) : (l.foldlM f b).Yields source fun b' => rel b' (l.foldl g d) := by
  induction l generalizing b d with
  | nil => exact h
  | cons x l ih =>
    rw [List.foldlM_cons, List.foldl_cons]
    exact (hf b d x h).bind fun b' hb' => ih hb'

end Dialogue

/-! ## Requests that ask for requests -/

section Steps

variable (step : Q → Q → Prop) (key : Q → K)

/-- A chain of so many hops starts at the request. -/
def Chain : ℕ → Q → Prop
  | 0, _ => True
  | n + 1, q => ∃ p, step q p ∧ Chain n p

def Reaches : Q → Q → Prop := Relation.ReflTransGen step

/-- A request below which no chain is too long and every key stands for one request. -/
structure Clean (room : ℕ) (q : Q) : Prop where
  shallow : ¬ Chain step room q
  agree : ∀ a, Reaches step q a → ∀ b, Reaches step q b → key a = key b → a = b

/-- Requests below two requests are kept under one key. -/
def Meets (q p : Q) : Prop := ∃ a b, Reaches step q a ∧ Reaches step p b ∧ key a = key b

/-- Different requests that meet are clean and agree on the requests they meet in. -/
def Apart (room : ℕ) (q p : Q) : Prop :=
  q ≠ p → Meets step key q p → Clean step key room q ∧ Clean step key room p ∧
    ∀ a b, Reaches step q a → Reaches step p b → key a = key b → a = b

variable {step key} {step' : Q → Q → Prop} {q p : Q} {n : ℕ}

theorem Chain.pred (h : Chain step (n + 1) q) : Chain step n q := by
  induction n generalizing q with
  | zero => trivial
  | succ n ih =>
    obtain ⟨p, hp, hchain⟩ := h
    exact ⟨p, hp, ih hchain⟩

theorem Chain.of_reaches (h : Reaches step q p) (hp : Chain step n p) : Chain step n q := by
  induction h using Relation.ReflTransGen.head_induction_on with
  | refl => exact hp
  | head hstep _ ih => exact Chain.pred ⟨_, hstep, ih⟩

theorem chain_of_loop (hp : step q p) (h : Reaches step p q) (n : ℕ) : Chain step n q := by
  induction n with
  | zero => trivial
  | succ n ih => exact ⟨p, hp, Chain.of_reaches h ih⟩

theorem Chain.mono (h : ∀ q p, step' q p → step q p) (hchain : Chain step' n q) :
    Chain step n q := by
  induction n generalizing q with
  | zero => trivial
  | succ n ih =>
    obtain ⟨p, hp, hrest⟩ := hchain
    exact ⟨p, h q p hp, ih hrest⟩

theorem Reaches.mono (h : ∀ q p, step' q p → step q p) (hreach : Reaches step' q p) :
    Reaches step q p :=
  Relation.ReflTransGen.mono h _ _ hreach

theorem Clean.mono (h : ∀ q p, step' q p → step q p) (hq : Clean step key n q) :
    Clean step' key n q :=
  ⟨fun hchain => hq.shallow (hchain.mono h),
    fun a ha b hb => hq.agree a (ha.mono h) b (hb.mono h)⟩

theorem Apart.mono (h : ∀ q p, step' q p → step q p) (hap : Apart step key n q p) :
    Apart step' key n q p := by
  rintro hne ⟨a, b, ha, hb, hkey⟩
  obtain ⟨hq, hp, hagree⟩ := hap hne ⟨a, b, ha.mono h, hb.mono h, hkey⟩
  exact ⟨hq.mono h, hp.mono h, fun a b ha hb => hagree a b (ha.mono h) (hb.mono h)⟩

end Steps

/-- A recursion: the facts, the key an answer is kept under, how a request is answered, and the
answers where it is not followed further. -/
structure Recursion (R : Type) (B : R → Type) (Q K A : Type) where
  source : (r : R) → B r
  key : Q → K
  body : Q → Dialogue R B Q A A
  exhausted : Q → A
  circular : Q → A

namespace Recursion

variable (P : Recursion R B Q K A)

def Asks (q p : Q) : Prop := (P.body q).Asks P.source p

/-- The answer of the recursion without a cache, followed to a depth. -/
def value : ℕ → Q → A
  | 0, q => P.exhausted q
  | n + 1, q => (P.body q).eval P.source (value n)

variable {P}

theorem value_stable {n m : ℕ} {q : Q} (h : ¬ Chain P.Asks n q) (hle : n ≤ m) :
    P.value m q = P.value n q := by
  induction n generalizing m q with
  | zero => exact absurd trivial h
  | succ n ih =>
    obtain ⟨m, rfl⟩ : ∃ k, m = k + 1 := ⟨m - 1, by omega⟩
    refine Dialogue.eval_congr fun p hp => ih (fun hchain => ?_) (by omega)
    exact h ⟨p, hp, hchain⟩

end Recursion

/-! ## Caches -/

inductive Entry (A : Type)
  | inProgress
  | answer (a : A)
deriving DecidableEq

/-- The facts read and the answers kept so far. -/
structure Cache (R : Type) (B : R → Type) (K A : Type) where
  reads : (r : R) → Option (B r)
  answers : K → Option (Entry A)

def Cache.empty : Cache R B K A := ⟨fun _ => none, fun _ => none⟩

namespace Recursion

variable {P : Recursion R B Q K A} {c c' : Cache R B K A} {S : Set K} {q : Q}

variable (P) in
def Faithful (c : Cache R B K A) : Prop := ∀ r b, c.reads r = some b → b = P.source r

variable (P) in
/-- A faithful cache with new answers under some keys. -/
structure Extends (S : Set K) (c c' : Cache R B K A) : Prop where
  faithful : P.Faithful c'
  kept : ∀ k a, c.answers k = some (.answer a) → c'.answers k = some (.answer a)
  unmarked : ∀ k, c'.answers k = some .inProgress → c.answers k = some .inProgress
  frame : ∀ k ∉ S, c'.answers k = c.answers k

theorem Extends.refl (h : P.Faithful c) (S : Set K) : P.Extends S c c :=
  ⟨h, fun _ _ => id, fun _ => id, fun _ _ => rfl⟩

theorem Extends.trans {c₁ c₂ c₃ : Cache R B K A} (h : P.Extends S c₁ c₂) (h' : P.Extends S c₂ c₃) :
    P.Extends S c₁ c₃ :=
  ⟨h'.faithful, fun k a hk => h'.kept k a (h.kept k a hk),
    fun k hk => h.unmarked k (h'.unmarked k hk),
    fun k hk => (h'.frame k hk).trans (h.frame k hk)⟩

variable (P) in
/-- Faithful caches that agree under some keys. -/
structure Same (S : Set K) (c c' : Cache R B K A) : Prop where
  left : P.Faithful c
  right : P.Faithful c'
  agree : ∀ k ∈ S, c.answers k = c'.answers k

variable (P) in
/-- A faithful cache whose answers below a request are those of the recursion. -/
structure Right (n : ℕ) (q : Q) (c : Cache R B K A) : Prop where
  faithful : P.Faithful c
  right : ∀ p, Reaches P.Asks q p → ∀ a, c.answers (P.key p) = some (.answer a) → a = P.value n p

variable (P) in
/-- A faithful cache whose answers of some requests yield what their bodies do. -/
structure Keeps (D : Q → Prop) (post : Q → A → Prop) (c : Cache R B K A) : Prop where
  faithful : P.Faithful c
  kept : ∀ q, D q → ∀ a, c.answers (P.key q) = some (.answer a) → post q a

variable (P) in
/-- No answer below a request is being computed. -/
def Clear (q : Q) (c : Cache R B K A) : Prop :=
  ∀ p, Reaches P.Asks q p → c.answers (P.key p) ≠ some .inProgress

theorem faithful_empty : P.Faithful .empty := fun r b h => by cases h

variable (P) in
/-- The answers below a request are kept under some keys. -/
def Within (S : Set K) (q : Q) : Prop := ∀ p, Reaches P.Asks q p → P.key p ∈ S

theorem Within.of_asks (h : P.Within S q) {p : Q} (hp : P.Asks q p) : P.Within S p :=
  fun p' hp' => h p' (Relation.ReflTransGen.head hp hp')

end Recursion

/-! ## Reads -/

section Reads

variable [DecidableEq R]

def readCached (source : (r : R) → B r) (r : R) (c : Cache R B K A) : B r × Cache R B K A :=
  match c.reads r with
  | some b => (b, c)
  | none => (source r, { c with reads := Function.update c.reads r (some (source r)) })

def run (source : (r : R) → B r) (ask : Q → Cache R B K A → A × Cache R B K A) :
    Dialogue R B Q A α → Cache R B K A → α × Cache R B K A
  | .done a, c => (a, c)
  | .read r next, c => run source ask (next (readCached source r c).1) (readCached source r c).2
  | .ask q next, c => run source ask (next (ask q c).1) (ask q c).2

section

variable {source : (r : R) → B r} {ask : Q → Cache R B K A → A × Cache R B K A}
  {c : Cache R B K A}

theorem run_read {r : R} {next : B r → Dialogue R B Q A α} :
    run source ask (.read r next) c =
      run source ask (next (readCached source r c).1) (readCached source r c).2 := rfl

theorem run_ask {q : Q} {next : A → Dialogue R B Q A α} :
    run source ask (.ask q next) c = run source ask (next (ask q c).1) (ask q c).2 := rfl

end

namespace Recursion

variable {P : Recursion R B Q K A} {c c' : Cache R B K A} {S : Set K}

theorem readCached_fst (h : P.Faithful c) (r : R) : (readCached P.source r c).1 = P.source r := by
  unfold readCached
  cases hr : c.reads r with
  | none => rfl
  | some b => exact h r b hr

theorem readCached_answers (source : (r : R) → B r) (r : R) (c : Cache R B K A) :
    (readCached source r c).2.answers = c.answers := by
  unfold readCached
  cases c.reads r <;> rfl

theorem readCached_faithful (h : P.Faithful c) (r : R) :
    P.Faithful (readCached P.source r c).2 := by
  unfold readCached
  cases hr : c.reads r with
  | some b => exact h
  | none =>
    intro r' b hb
    have hb : Function.update c.reads r (some (P.source r)) r' = some b := hb
    by_cases heq : r' = r
    · subst heq
      simpa [eq_comm] using hb
    · rw [Function.update_of_ne heq] at hb
      exact h r' b hb

theorem Right.readCached {n : ℕ} (h : P.Right n q c) (r : R) :
    P.Right n q (readCached P.source r c).2 :=
  ⟨readCached_faithful h.faithful r, by rw [readCached_answers]; exact h.right⟩

theorem Keeps.readCached {D : Q → Prop} {post : Q → A → Prop}
    (h : P.Keeps D post c) (r : R) : P.Keeps D post (readCached P.source r c).2 :=
  ⟨readCached_faithful h.faithful r, by rw [readCached_answers]; exact h.kept⟩

theorem Clear.readCached (h : P.Clear q c) (r : R) : P.Clear q (readCached P.source r c).2 := by
  unfold Clear
  rw [readCached_answers]
  exact h

theorem run_extends {ask : Q → Cache R B K A → A × Cache R B K A} {d : Dialogue R B Q A α}
    (hask : ∀ p, d.Asks P.source p → ∀ c, P.Faithful c → P.Extends S c (ask p c).2)
    (h : P.Faithful c) : P.Extends S c (run P.source ask d c).2 := by
  induction d generalizing c with
  | done a => exact Extends.refl h S
  | read r next ih =>
    have hrest := ih _ hask (readCached_faithful h r)
    have hanswers := readCached_answers P.source r c
    rw [run_read, readCached_fst h]
    exact ⟨hrest.faithful, hanswers ▸ hrest.kept, hanswers ▸ hrest.unmarked,
      hanswers ▸ hrest.frame⟩
  | ask p next ih =>
    have hstep := hask p (.inl rfl) c h
    exact hstep.trans (ih _ (fun p' hp' => hask p' (.inr ⟨_, hp'⟩)) hstep.faithful)

/-- What a dialogue results in when its requests are answered in a fixed way under an invariant. -/
theorem run_eval {ask : Q → Cache R B K A → A × Cache R B K A} {d : Dialogue R B Q A α}
    {answer : Q → A} {I : Cache R B K A → Prop} (hI : ∀ c, I c → P.Faithful c)
    (hread : ∀ r c, I c → I (readCached P.source r c).2)
    (hask : ∀ p, d.Asks P.source p → ∀ c, I c → (ask p c).1 = answer p ∧ I (ask p c).2) (h : I c) :
    (run P.source ask d c).1 = d.eval P.source answer ∧ I (run P.source ask d c).2 := by
  induction d generalizing c with
  | done a => exact ⟨rfl, h⟩
  | read r next ih =>
    rw [run_read, readCached_fst (hI c h)]
    exact ih _ hask (hread r c h)
  | ask p next ih =>
    obtain ⟨hanswer, hinv⟩ := hask p (.inl rfl) c h
    rw [run_ask, hanswer]
    exact ih _ (fun p' hp' => hask p' (.inr ⟨_, hp'⟩)) hinv

/-- Dialogues are run alike from caches from which their requests are answered alike. -/
theorem run_same {ask : Q → Cache R B K A → A × Cache R B K A} {d : Dialogue R B Q A α}
    (hask : ∀ p, d.Asks P.source p → ∀ c c', P.Same S c c' →
      (ask p c).1 = (ask p c').1 ∧ P.Same S (ask p c).2 (ask p c').2)
    (h : P.Same S c c') :
    (run P.source ask d c).1 = (run P.source ask d c').1 ∧
      P.Same S (run P.source ask d c).2 (run P.source ask d c').2 := by
  induction d generalizing c c' with
  | done a => exact ⟨rfl, h⟩
  | read r next ih =>
    rw [run_read, run_read, readCached_fst h.left, readCached_fst h.right]
    refine ih _ hask ⟨readCached_faithful h.left r, readCached_faithful h.right r, ?_⟩
    rw [readCached_answers, readCached_answers]
    exact h.agree
  | ask p next ih =>
    obtain ⟨hanswer, hsame⟩ := hask p (.inl rfl) c c' h
    rw [run_ask, run_ask, hanswer]
    exact ih _ (fun p' hp' => hask p' (.inr ⟨_, hp'⟩)) hsame

theorem run_yields {ask : Q → Cache R B K A → A × Cache R B K A} {d : Dialogue R B Q A α}
    {post : α → Prop} {I : Cache R B K A → Prop} (hI : ∀ c, I c → P.Faithful c)
    (hread : ∀ r c, I c → I (readCached P.source r c).2)
    (hask : ∀ p, d.Asks P.source p → ∀ c, I c → I (ask p c).2) (hd : d.Yields P.source post)
    (h : I c) : post (run P.source ask d c).1 ∧ I (run P.source ask d c).2 := by
  induction d generalizing c with
  | done a => exact ⟨hd, h⟩
  | read r next ih =>
    rw [run_read, readCached_fst (hI c h)]
    exact ih _ hask hd (hread r c h)
  | ask p next ih =>
    rw [run_ask]
    exact ih _ (fun p' hp' => hask p' (.inr ⟨_, hp'⟩)) (hd _) (hask p (.inl rfl) c h)

end Recursion

end Reads

/-! ## Calls -/

variable [DecidableEq K]

def Cache.set (c : Cache R B K A) (k : K) (e : Entry A) : Cache R B K A :=
  { c with answers := Function.update c.answers k (some e) }

theorem Cache.answers_set (c : Cache R B K A) (k : K) (e : Entry A) :
    (c.set k e).answers = Function.update c.answers k (some e) := rfl

variable [DecidableEq R]

namespace Recursion

variable (P : Recursion R B Q K A)

/-- Answer a request with room for so many more hops. -/
def call : ℕ → Q → Cache R B K A → A × Cache R B K A
  | 0, q, c =>
    match c.answers (P.key q) with
    | some (.answer a) => (a, c)
    | _ => (P.exhausted q, c)
  | room + 1, q, c =>
    match c.answers (P.key q) with
    | some (.answer a) => (a, c)
    | some .inProgress => (P.circular q, c)
    | none =>
      let r := run P.source (call room) (P.body q) (c.set (P.key q) .inProgress)
      (r.1, r.2.set (P.key q) (.answer r.1))

def calls (room : ℕ) : List Q → Cache R B K A → List A
  | [], _ => []
  | q :: qs, c => (P.call room q c).1 :: calls room qs (P.call room q c).2

def fresh (room : ℕ) (q : Q) : A := (P.call room q .empty).1

variable {P} {c c' : Cache R B K A} {S : Set K} {q : Q} {room : ℕ}

theorem call_zero : P.call 0 q c =
    match c.answers (P.key q) with
    | some (.answer a) => (a, c)
    | _ => (P.exhausted q, c) := rfl

theorem call_succ : P.call (room + 1) q c =
    match c.answers (P.key q) with
    | some (.answer a) => (a, c)
    | some .inProgress => (P.circular q, c)
    | none =>
      let r := run P.source (P.call room) (P.body q) (c.set (P.key q) .inProgress)
      (r.1, r.2.set (P.key q) (.answer r.1)) := rfl

theorem call_of_answer {a : A} (h : c.answers (P.key q) = some (.answer a)) :
    P.call room q c = (a, c) := by
  cases room <;> simp [call_zero, call_succ, h]

theorem call_of_some {e : Entry A} (h : c.answers (P.key q) = some e) :
    (P.call room q c).2 = c := by
  cases e <;> cases room <;> simp [call_zero, call_succ, h]

theorem call_zero_snd : (P.call 0 q c).2 = c := by
  rw [call_zero]
  split <;> rfl

theorem call_of_none (h : c.answers (P.key q) = none) :
    P.call (room + 1) q c =
      ((run P.source (P.call room) (P.body q) (c.set (P.key q) .inProgress)).1,
        (run P.source (P.call room) (P.body q) (c.set (P.key q) .inProgress)).2.set (P.key q)
          (.answer (run P.source (P.call room) (P.body q) (c.set (P.key q) .inProgress)).1)) := by
  simp [call_succ, h]

theorem call_extends (hS : P.Within S q) (h : P.Faithful c) :
    P.Extends S c (P.call room q c).2 := by
  induction room generalizing q c with
  | zero => rw [call_zero_snd]; exact Extends.refl h S
  | succ room ih =>
    cases hkey : c.answers (P.key q) with
    | some e =>
      rw [call_of_some hkey]
      exact Extends.refl h S
    | none =>
      have hrun := run_extends (d := P.body q) (c := c.set (P.key q) .inProgress)
        (fun p hp c hc => ih (hS.of_asks hp) hc) h
      rw [call_of_none hkey]
      refine ⟨hrun.faithful, fun k a hk => ?_, fun k hk => ?_, fun k hk => ?_⟩
      · have hne : k ≠ P.key q := by
          rintro rfl
          rw [hkey] at hk
          cases hk
        rw [Cache.answers_set, Function.update_of_ne hne]
        refine hrun.kept k a ?_
        rwa [Cache.answers_set, Function.update_of_ne hne]
      · rw [Cache.answers_set] at hk
        by_cases heq : k = P.key q
        · subst heq
          rw [Function.update_self] at hk
          cases hk
        · rw [Function.update_of_ne heq] at hk
          have hold := hrun.unmarked k hk
          rwa [Cache.answers_set, Function.update_of_ne heq] at hold
      · have hne : k ≠ P.key q := fun heq => hk (heq ▸ hS q .refl)
        rw [Cache.answers_set, Function.update_of_ne hne, hrun.frame k hk, Cache.answers_set,
          Function.update_of_ne hne]

theorem answers_call (hmark : c.answers (P.key q) ≠ some .inProgress) :
    (P.call (room + 1) q c).2.answers (P.key q) = some (.answer (P.call (room + 1) q c).1) := by
  cases hkey : c.answers (P.key q) with
  | some e =>
    cases e with
    | answer a => rw [call_of_answer hkey, hkey]
    | inProgress => exact absurd hkey hmark
  | none => rw [call_of_none hkey, Cache.answers_set, Function.update_self]

/-- From caches that agree below a request a call gives one answer and leaves caches that agree. -/
theorem call_same (hS : P.Within S q) (h : P.Same S c c') :
    (P.call room q c).1 = (P.call room q c').1 ∧
      P.Same S (P.call room q c).2 (P.call room q c').2 := by
  induction room generalizing q c c' with
  | zero =>
    rw [call_zero_snd, call_zero_snd]
    refine ⟨?_, h⟩
    simp only [call_zero, h.agree _ (hS q .refl)]
    split <;> rfl
  | succ room ih =>
    have hkey := h.agree _ (hS q .refl)
    cases hc : c.answers (P.key q) with
    | some e =>
      have hc' := hkey.symm.trans hc
      rw [call_of_some hc, call_of_some hc']
      refine ⟨?_, h⟩
      cases e with
      | answer a => rw [call_of_answer hc, call_of_answer hc']
      | inProgress => simp [call_succ, hc, hc']
    | none =>
      have hmarked : P.Same S (c.set (P.key q) .inProgress) (c'.set (P.key q) .inProgress) := by
        refine ⟨h.left, h.right, fun k hk => ?_⟩
        rw [Cache.answers_set, Cache.answers_set]
        by_cases heq : k = P.key q
        · rw [heq, Function.update_self, Function.update_self]
        · rw [Function.update_of_ne heq, Function.update_of_ne heq, h.agree k hk]
      have hask : ∀ p, P.Asks q p → ∀ c c', P.Same S c c' →
          (P.call room p c).1 = (P.call room p c').1 ∧
            P.Same S (P.call room p c).2 (P.call room p c').2 :=
        fun p hp c c' hc => ih (hS.of_asks hp) hc
      obtain ⟨hanswer, hsame⟩ := run_same hask hmarked
      rw [call_of_none hc, call_of_none (hkey.symm.trans hc), hanswer]
      refine ⟨rfl, hsame.left, hsame.right, fun k hk => ?_⟩
      rw [Cache.answers_set, Cache.answers_set]
      by_cases heq : k = P.key q
      · rw [heq, Function.update_self, Function.update_self]
      · rw [Function.update_of_ne heq, Function.update_of_ne heq, hsame.agree k hk]

theorem Clear.call {p : Q} (h : P.Clear q c) (hfaithful : P.Faithful c) :
    P.Clear q (P.call room p c).2 := by
  have hext : P.Extends Set.univ c (P.call room p c).2 :=
    call_extends (fun _ _ => trivial) hfaithful
  exact fun b hb hmark => h b hb (hext.unmarked _ hmark)

/-- Below a clean request a call gives the answer of the recursion and leaves a cache with right
answers. -/
theorem call_right {root : Q} {n m : ℕ} (hroot : Clean P.Asks P.key n root)
    (hq : Reaches P.Asks root q) (hchain : ¬ Chain P.Asks m q) (hroom : m ≤ room) (hn : m ≤ n)
    (h : P.Right n root c) (hclear : P.Clear q c) :
    (P.call room q c).1 = P.value n q ∧ P.Right n root (P.call room q c).2 := by
  induction m generalizing room q c with
  | zero => exact absurd trivial hchain
  | succ m ih =>
    obtain ⟨room, rfl⟩ : ∃ k, room = k + 1 := ⟨room - 1, by omega⟩
    cases hkey : c.answers (P.key q) with
    | some e =>
      cases e with
      | inProgress => exact absurd hkey (hclear q .refl)
      | answer a =>
        rw [call_of_answer hkey]
        exact ⟨h.right q hq a hkey, h⟩
    | none =>
      -- the mark stands for no request below those that are asked
      have hmarked : P.Right n root (c.set (P.key q) .inProgress) := by
        refine ⟨h.faithful, fun p hp a ha => ?_⟩
        rw [Cache.answers_set] at ha
        by_cases heq : P.key p = P.key q
        · rw [heq, Function.update_self] at ha
          cases ha
        · rw [Function.update_of_ne heq] at ha
          exact h.right p hp a ha
      have hbelow : ∀ p, P.Asks q p → P.Clear p (c.set (P.key q) .inProgress) := by
        intro p hp b hb hmark
        rw [Cache.answers_set] at hmark
        by_cases heq : P.key b = P.key q
        · have hqb : Reaches P.Asks q b := .head hp hb
          obtain rfl := hroot.agree b (hq.trans hqb) q hq heq
          exact hchain (chain_of_loop hp hb _)
        · rw [Function.update_of_ne heq] at hmark
          exact hclear b (.head hp hb) hmark
      have hask : ∀ p, P.Asks q p → ∀ c,
          (P.Right n root c ∧ ∀ p, P.Asks q p → P.Clear p c) →
            (P.call room p c).1 = P.value n p ∧ P.Right n root (P.call room p c).2 ∧
              ∀ p', P.Asks q p' → P.Clear p' (P.call room p c).2 := by
        intro p hp c hc
        have hshort : ¬ Chain P.Asks m p := fun hch => hchain ⟨p, hp, hch⟩
        obtain ⟨hanswer, hright⟩ := ih (hq.tail hp) hshort (show m ≤ room by omega) (by omega) hc.1
          (hc.2 p hp)
        exact ⟨hanswer, hright, fun p' hp' => (hc.2 p' hp').call hc.1.faithful⟩
      obtain ⟨hanswer, hright, -⟩ := run_eval (fun c hc => hc.1.faithful)
        (fun r c hc => ⟨hc.1.readCached r, fun p hp => (hc.2 p hp).readCached r⟩) hask
        ⟨hmarked, hbelow⟩
      have hvalue : (P.body q).eval P.source (P.value n) = P.value n q := by
        have hstable := value_stable hchain hn
        rw [← value_stable hchain (show m + 1 ≤ n + 1 by omega)] at hstable
        exact hstable.symm
      rw [call_of_none hkey, hanswer, hvalue]
      refine ⟨rfl, hright.faithful, fun p hp a ha => ?_⟩
      rw [Cache.answers_set] at ha
      by_cases heq : P.key p = P.key q
      · obtain rfl := hroot.agree p hp q hq heq
        rw [Function.update_self] at ha
        cases ha
        rfl
      · rw [Function.update_of_ne heq] at ha
        exact hright.right p hp a ha

theorem fresh_eq_value (hq : Clean P.Asks P.key room q) : P.fresh room q = P.value room q :=
  (call_right hq .refl hq.shallow le_rfl le_rfl ⟨faithful_empty, fun _ _ _ h => by cases h⟩
    fun _ _ h => by cases h).1

variable (P) in
/-- A cache after some calls: every answer lies below one of them, and is right when that is clean,
and the answers of the calls are those they give with a cache of their own. -/
structure After (room : ℕ) (qs : List Q) (c : Cache R B K A) : Prop where
  faithful : P.Faithful c
  unmarked : ∀ k, c.answers k ≠ some .inProgress
  origin : ∀ k a, c.answers k = some (.answer a) → ∃ q ∈ qs, ∃ p, Reaches P.Asks q p ∧ P.key p = k ∧
    (Clean P.Asks P.key room q → a = P.value room p)
  kept : ∀ q ∈ qs, c.answers (P.key q) = some (.answer (P.fresh room q))

theorem after_empty : P.After room [] .empty where
  faithful := faithful_empty
  unmarked _ h := by cases h
  origin _ _ h := by cases h
  kept _ h := by cases h

/-- A call apart from the calls before it gives the answer it gives with a cache of its own. -/
theorem After.call {qs : List Q} (h : P.After (room + 1) qs c)
    (hapart : ∀ p ∈ qs, Apart P.Asks P.key (room + 1) p q) :
    (P.call (room + 1) q c).1 = P.fresh (room + 1) q ∧
      P.After (room + 1) (qs ++ [q]) (P.call (room + 1) q c).2 := by
  by_cases hmem : q ∈ qs
  · rw [call_of_answer (h.kept q hmem)]
    refine ⟨rfl, h.faithful, h.unmarked, fun k a hk => ?_, fun p hp => ?_⟩
    · obtain ⟨p, hp, hrest⟩ := h.origin k a hk
      exact ⟨p, List.mem_append_left _ hp, hrest⟩
    · rcases List.mem_append.1 hp with hp | hp
      · exact h.kept p hp
      · exact List.mem_singleton.1 hp ▸ h.kept q hmem
  · -- an answer below the request is one of a call it meets
    have hmeets : ∀ b, Reaches P.Asks q b → ∀ a, c.answers (P.key b) = some (.answer a) →
        Clean P.Asks P.key (room + 1) q ∧ a = P.value (room + 1) b := by
      intro b hb a ha
      obtain ⟨p, hp, b', hb', hkey, hvalue⟩ := h.origin _ a ha
      obtain ⟨hcleanp, hcleanq, hagree⟩ := hapart p hp (fun heq => hmem (heq ▸ hp))
        ⟨b', b, hb', hb, hkey⟩
      obtain rfl := hagree b' b hb' hb hkey
      exact ⟨hcleanq, hvalue hcleanp⟩
    have hright : Clean P.Asks P.key (room + 1) q →
        (P.call (room + 1) q c).1 = P.value (room + 1) q ∧
          P.Right (room + 1) q (P.call (room + 1) q c).2 := fun hq =>
      call_right hq .refl hq.shallow le_rfl le_rfl
        ⟨h.faithful, fun b hb a ha => (hmeets b hb a ha).2⟩ fun b _ => h.unmarked _
    have hfresh : (P.call (room + 1) q c).1 = P.fresh (room + 1) q := by
      by_cases hq : Clean P.Asks P.key (room + 1) q
      · rw [(hright hq).1, fresh_eq_value hq]
      · -- nothing below the request is in the cache
        refine (call_same (S := {k | ∃ b, Reaches P.Asks q b ∧ P.key b = k})
          (fun b hb => ⟨b, hb, rfl⟩) ⟨h.faithful, faithful_empty, ?_⟩).1
        rintro _ ⟨b, hb, rfl⟩
        cases hc : c.answers (P.key b) with
        | none => rfl
        | some e =>
          cases e with
          | inProgress => exact absurd hc (h.unmarked _)
          | answer a => exact absurd (hmeets b hb a hc).1 hq
    have hext : P.Extends {k | ∃ b, Reaches P.Asks q b ∧ P.key b = k} c
        (P.call (room + 1) q c).2 :=
      call_extends (fun b hb => ⟨b, hb, rfl⟩) h.faithful
    refine ⟨hfresh, hext.faithful, fun k hk => h.unmarked k (hext.unmarked k hk), fun k a hk => ?_,
      fun p hp => ?_⟩
    · by_cases hin : ∃ b, Reaches P.Asks q b ∧ P.key b = k
      · obtain ⟨b, hb, rfl⟩ := hin
        exact ⟨q, List.mem_append_right _ (List.mem_singleton_self q), b, hb, rfl,
          fun hq => (hright hq).2.right b hb a hk⟩
      · rw [hext.frame k hin] at hk
        obtain ⟨p, hp, hrest⟩ := h.origin k a hk
        exact ⟨p, List.mem_append_left _ hp, hrest⟩
    · rcases List.mem_append.1 hp with hp | hp
      · exact hext.kept _ _ (h.kept p hp)
      · rw [List.mem_singleton.1 hp, answers_call (h.unmarked _), hfresh]

/-- Calls that are apart from each other give with a shared cache the answers they give with caches
of their own. -/
theorem calls_eq_fresh {qs : List Q} (h : ∀ q ∈ qs, ∀ p ∈ qs, Apart P.Asks P.key (room + 1) q p) :
    P.calls (room + 1) qs .empty = qs.map (P.fresh (room + 1)) := by
  have hrun : ∀ (qs before : List Q) (c : Cache R B K A), P.After (room + 1) before c →
      (∀ q ∈ before ++ qs, ∀ p ∈ before ++ qs, Apart P.Asks P.key (room + 1) q p) →
        P.calls (room + 1) qs c = qs.map (P.fresh (room + 1)) := by
    intro qs
    induction qs with
    | nil => exact fun _ _ _ _ => rfl
    | cons q qs ih =>
      intro before c hafter hapart
      obtain ⟨hanswer, hnext⟩ := hafter.call (q := q) fun p hp =>
        hapart p (List.mem_append_left _ hp) q (List.mem_append_right _ List.mem_cons_self)
      rw [calls, List.map_cons, hanswer, ih (before ++ [q]) _ hnext]
      simpa using hapart
  exact hrun qs [] _ after_empty (by simpa using h)

theorem fresh_yields {post : A → Prop} (hbody : (P.body q).Yields P.source post) :
    post (P.fresh (room + 1) q) := by
  have hmarked : P.Faithful ((.empty : Cache R B K A).set (P.key q) .inProgress) := faithful_empty
  unfold fresh
  rw [call_of_none rfl]
  refine (run_yields (fun _ h => h) (fun r _ h => readCached_faithful h r) (fun p _ c hc => ?_) hbody
    hmarked).1
  exact (call_extends (S := Set.univ) (fun _ _ => trivial) hc).faithful

variable {D : Q → Prop} {post : Q → A → Prop}

omit [DecidableEq R] in
theorem Keeps.set_inProgress (h : P.Keeps D post c) (k : K) :
    P.Keeps D post (c.set k .inProgress) := by
  refine ⟨h.faithful, fun p hp a ha => ?_⟩
  rw [Cache.answers_set] at ha
  by_cases heq : P.key p = k
  · rw [heq, Function.update_self] at ha
    cases ha
  · rw [Function.update_of_ne heq] at ha
    exact h.kept p hp a ha

/-- A call for one of the requests keeps the cache, and its answer yields what its body does unless
it is cut off. -/
theorem call_keeps (hbody : ∀ q, D q → (P.body q).Yields P.source (post q))
    (hasks : ∀ q, D q → ∀ p, P.Asks q p → D p)
    (hkeys : ∀ q, D q → ∀ p, D p → P.key p = P.key q → p = q) (hq : D q) (h : P.Keeps D post c) :
    P.Keeps D post (P.call room q c).2 ∧
      (c.answers (P.key q) ≠ some .inProgress → room ≠ 0 → post q (P.call room q c).1) := by
  induction room generalizing q c with
  | zero => exact ⟨by rwa [call_zero_snd], fun _ hroom => absurd rfl hroom⟩
  | succ room ih =>
    cases hkey : c.answers (P.key q) with
    | some e =>
      rw [call_of_some hkey]
      refine ⟨h, fun hmark _ => ?_⟩
      cases e with
      | inProgress => exact absurd rfl hmark
      | answer a =>
        rw [call_of_answer hkey]
        exact h.kept q hq a hkey
    | none =>
      obtain ⟨hanswer, hkeeps⟩ := run_yields (I := P.Keeps D post) (fun _ hc => hc.faithful)
        (fun r _ hc => hc.readCached r) (fun p hp _ hc => (ih (hasks q hq p hp) hc).1) (hbody q hq)
        (h.set_inProgress (P.key q))
      rw [call_of_none hkey]
      refine ⟨⟨hkeeps.faithful, fun p hp a ha => ?_⟩, fun _ _ => hanswer⟩
      rw [Cache.answers_set] at ha
      by_cases heq : P.key p = P.key q
      · obtain rfl := hkeys q hq p hp heq
        rw [Function.update_self] at ha
        cases ha
        exact hanswer
      · rw [Function.update_of_ne heq] at ha
        exact hkeeps.kept p hp a ha

theorem calls_yield (hbody : ∀ q, D q → (P.body q).Yields P.source (post q))
    (hasks : ∀ q, D q → ∀ p, P.Asks q p → D p)
    (hkeys : ∀ q, D q → ∀ p, D p → P.key p = P.key q → p = q) {qs : List Q} (hqs : ∀ q ∈ qs, D q) :
    List.Forall₂ post qs (P.calls (room + 1) qs .empty) := by
  have hrun : ∀ (qs : List Q) (c : Cache R B K A), (∀ q ∈ qs, D q) → P.Keeps D post c →
      (∀ k, c.answers k ≠ some .inProgress) → List.Forall₂ post qs (P.calls (room + 1) qs c) := by
    intro qs
    induction qs with
    | nil => exact fun _ _ _ _ => .nil
    | cons q qs ih =>
      intro c hqs hkeeps hmarks
      obtain ⟨hq, hqs⟩ := List.forall_mem_cons.1 hqs
      obtain ⟨hnext, hanswer⟩ := call_keeps hbody hasks hkeys hq hkeeps
      have hext : P.Extends Set.univ c (P.call (room + 1) q c).2 :=
        call_extends (fun _ _ => trivial) hkeeps.faithful
      exact .cons (hanswer (hmarks _) room.succ_ne_zero)
        (ih _ hqs hnext fun k hk => hmarks k (hext.unmarked k hk))
  exact hrun qs .empty hqs ⟨faithful_empty, fun _ _ _ h => by cases h⟩ fun _ h => by cases h

end Recursion

end Memo
