import Mathlib.Data.List.Basic
import Mathlib.Order.Basic

/-!
# Packet Marking Rules

Chains of `nft` rules that look at a packet and set the mark of its connection and its own mark.

A rule is a list of expressions that are evaluated from left to right.  A test that fails ends the
rule, and the next one is tried.  A verdict ends the rule too: `jump` goes on after the rule when
the other chain is done, `goto` does not come back, and `return` ends the chain.  A verdict map
without an entry for its key is a test that fails.

## Main results

- `evalRules_append_of_idle`: rules that do nothing can be left out
- `evalRules_markIf`: of several rules that set a mark only where there is none, the first one that
  matches does
-/

namespace QModem.Lib.Nft

open List

variable {γ δ : Type} [DecidableEq δ]

/-! ## Packets and marks -/

structure Prefix where
  addr : BitVec 32
  len : ℕ
  deriving DecidableEq

def Prefix.contains (p : Prefix) (a : BitVec 32) : Bool :=
  a >>> (32 - p.len) = p.addr >>> (32 - p.len)

/-- What rules see of a packet.  `draw` is what the random number generator gives for it. -/
structure Packet (δ : Type) where
  iif : δ
  saddr : BitVec 32
  daddr : BitVec 32
  l4proto : ℕ
  sport : ℕ
  dport : ℕ
  toLocal : Bool
  original : Bool
  draw : ℕ

/-- The mark of the connection and the mark of the packet. -/
structure Marks where
  ct : BitVec 32
  packet : BitVec 32
  deriving DecidableEq

/-- The bits of the mask are replaced by those of the value. -/
def withField (mask value mark : BitVec 32) : BitVec 32 := mark &&& ~~~mask ||| value

theorem and_withField {mask value : BitVec 32} (h : value &&& mask = value) (mark : BitVec 32) :
    withField mask value mark &&& mask = value := by
  unfold withField
  ext i hi
  have hbit : (value[i] && mask[i]) = value[i] := by rw [← BitVec.getElem_and, h]
  cases hmask : mask[i] <;> simp_all

theorem withField_eq_self {mask value mark : BitVec 32} (h : mark &&& mask = value) :
    withField mask value mark = mark := by
  subst h
  unfold withField
  ext i hi
  simp only [BitVec.getElem_and, BitVec.getElem_or, BitVec.getElem_not]
  cases mask[i] <;> simp

/-! ## Rules -/

inductive Test (δ : Type) where
  | iifname (device : δ)
  | ctDirectionOriginal
  /-- `ct mark & mask == 0` -/
  | ctMarkClear (mask : BitVec 32)
  /-- `ct mark & mask != 0` -/
  | ctMarkSet (mask : BitVec 32)
  | fibDaddrTypeLocal
  | saddr (p : Prefix)
  | daddr (ps : List Prefix)
  | l4proto (number : ℕ)
  | sport (port : ℕ)
  | dport (port : ℕ)
  deriving DecidableEq

inductive Verdict (γ : Type) where
  | jump (chain : γ)
  | goto (chain : γ)
  | ret
  deriving DecidableEq

inductive Expr (γ δ : Type) where
  | test (t : Test δ)
  /-- `ct mark set (ct mark & keep) | value` -/
  | setCtMark (keep value : BitVec 32)
  /-- `meta mark set (meta mark & keep) | value` -/
  | setPacketMark (keep value : BitVec 32)
  | verdict (v : Verdict γ)
  | ctMarkVmap (mask : BitVec 32) (entries : List (BitVec 32 × Verdict γ))
  /-- `numgen random mod modulus vmap`, the keys being intervals -/
  | numgenVmap (modulus : ℕ) (entries : List ((ℕ × ℕ) × Verdict γ))

abbrev Rule (γ δ : Type) := List (Expr γ δ)

variable (packet : Packet δ)

def Test.holds (m : Marks) : Test δ → Bool
  | .iifname device => packet.iif = device
  | .ctDirectionOriginal => packet.original
  | .ctMarkClear mask => m.ct &&& mask = 0
  | .ctMarkSet mask => m.ct &&& mask ≠ 0
  | .fibDaddrTypeLocal => packet.toLocal
  | .saddr p => p.contains packet.saddr
  | .daddr ps => ps.any (·.contains packet.daddr)
  | .l4proto number => packet.l4proto = number
  | .sport port => packet.sport = port
  | .dport port => packet.dport = port

def within (interval : ℕ × ℕ) (n : ℕ) : Bool := interval.1 ≤ n && n ≤ interval.2

def evalRule : Rule γ δ → Marks → Marks × Option (Verdict γ)
  | [], m => (m, none)
  | .test t :: es, m => if t.holds packet m then evalRule es m else (m, none)
  | .setCtMark keep value :: es, m => evalRule es { m with ct := m.ct &&& keep ||| value }
  | .setPacketMark keep value :: es, m => evalRule es { m with packet := m.packet &&& keep ||| value }
  | .verdict v :: _, m => (m, some v)
  | .ctMarkVmap mask entries :: _, m => (m, (entries.find? (·.1 = m.ct &&& mask)).map Prod.snd)
  | .numgenVmap modulus entries :: _, m =>
    (m, (entries.find? fun e => within e.1 (packet.draw % modulus)).map Prod.snd)

/-- The rest of a chain; `call` is the evaluation of the other chains. -/
def evalRules (call : γ → Marks → Option Marks) : List (Rule γ δ) → Marks → Option Marks
  | [], m => some m
  | r :: rs, m =>
    match evalRule packet r m with
    | (m', none) => evalRules call rs m'
    | (m', some (.jump c)) => (call c m').bind (evalRules call rs)
    | (m', some (.goto c)) => call c m'
    | (m', some .ret) => some m'

/-- A chain of the table, nested up to a depth. -/
def evalChain (table : γ → List (Rule γ δ)) : ℕ → γ → Marks → Option Marks
  | 0, _, _ => none
  | depth + 1, c, m => evalRules packet (evalChain table depth) (table c) m

/-! ## Evaluation -/

variable {packet} {call : γ → Marks → Option Marks} {r : Rule γ δ} {rs rest : List (Rule γ δ)}
  {m m' : Marks} {c : γ}

theorem evalChain_succ (table : γ → List (Rule γ δ)) (depth : ℕ) (c : γ) (m : Marks) :
    evalChain packet table (depth + 1) c m =
      evalRules packet (evalChain packet table depth) (table c) m := rfl

@[simp] theorem evalRules_nil : evalRules packet call [] m = some m := rfl

theorem evalRules_cons_next (h : evalRule packet r m = (m', none)) :
    evalRules packet call (r :: rs) m = evalRules packet call rs m' := by
  rw [evalRules, h]

theorem evalRules_cons_jump (h : evalRule packet r m = (m', some (.jump c))) :
    evalRules packet call (r :: rs) m = (call c m').bind (evalRules packet call rs) := by
  rw [evalRules, h]

theorem evalRules_cons_goto (h : evalRule packet r m = (m', some (.goto c))) :
    evalRules packet call (r :: rs) m = call c m' := by
  rw [evalRules, h]

theorem evalRules_cons_ret (h : evalRule packet r m = (m', some .ret)) :
    evalRules packet call (r :: rs) m = some m' := by
  rw [evalRules, h]

/-- Rules that do nothing can be left out. -/
theorem evalRules_append_of_idle (h : ∀ r ∈ rs, evalRule packet r m = (m, none)) :
    evalRules packet call (rs ++ rest) m = evalRules packet call rest m := by
  induction rs with
  | nil => rfl
  | cons r rs ih =>
    rw [cons_append, evalRules_cons_next (h r mem_cons_self)]
    exact ih fun r hr => h r (mem_cons_of_mem _ hr)

/-- Tests at the beginning of a rule. -/
theorem evalRule_tests (ts : List (Test δ)) (es : Rule γ δ) :
    evalRule packet (ts.map .test ++ es) m =
      if ts.all (Test.holds packet m) then evalRule packet es m else (m, none) := by
  induction ts with
  | nil => rfl
  | cons t ts ih =>
    rw [map_cons, cons_append, evalRule, ih, all_cons]
    cases t.holds packet m <;> simp

/-! ## Rules that set a mark where there is none -/

section MarkIf

variable {ι : Type} {mask : BitVec 32} {tests : ι → List (Test δ)} {value : ι → BitVec 32}

/-- A rule that sets the mark of the connection if all tests hold. -/
def markIf (keep value : BitVec 32) (ts : List (Test δ)) : Rule γ δ :=
  ts.map .test ++ [.setCtMark keep value]

theorem evalRule_markIf (ts : List (Test δ)) (v : BitVec 32) :
    evalRule packet (markIf (γ := γ) (~~~mask) v ts) m =
      (if ts.all (Test.holds packet m) then { m with ct := withField mask v m.ct } else m, none) := by
  rw [markIf, evalRule_tests]
  split <;> rfl

/-- Once there is a mark, rules that ask for none do nothing. -/
theorem evalRules_markIf_of_marked (items : List ι)
    (hclear : ∀ x ∈ items, .ctMarkClear mask ∈ tests x) (hm : m.ct &&& mask ≠ 0) :
    evalRules packet call (items.map (fun x => markIf (~~~mask) (value x) (tests x)) ++ rest) m =
      evalRules packet call rest m := by
  refine evalRules_append_of_idle fun r hr => ?_
  obtain ⟨x, hx, rfl⟩ := mem_map.mp hr
  have hfails : ¬ (tests x).all (Test.holds packet m) = true := by
    intro h
    have := all_eq_true.mp h _ (hclear x hx)
    exact hm (of_decide_eq_true this)
  rw [evalRule_markIf, if_neg hfails]

/-- **The first rule that matches sets the mark.** -/
theorem evalRules_markIf (items : List ι) (hclear : ∀ x ∈ items, .ctMarkClear mask ∈ tests x)
    (hvalue : ∀ x ∈ items, value x &&& mask = value x ∧ value x ≠ 0) :
    evalRules packet call (items.map (fun x => markIf (~~~mask) (value x) (tests x)) ++ rest) m =
      evalRules packet call rest ((items.find? fun x => (tests x).all (Test.holds packet m)).elim m
        fun x => { m with ct := withField mask (value x) m.ct }) := by
  induction items with
  | nil => rfl
  | cons x items ih =>
    have hrest := forall_mem_cons.mp hclear
    have hvalues := forall_mem_cons.mp hvalue
    rw [map_cons, cons_append, evalRules_cons_next (evalRule_markIf _ _), find?_cons]
    cases (tests x).all (Test.holds packet m) with
    | false => exact ih hrest.2 hvalues.2
    | true =>
      -- once the mark is set no later rule of the list matches
      refine evalRules_markIf_of_marked items hrest.2 ?_
      simp only [if_true, and_withField hvalues.1.1]
      exact hvalues.1.2

end MarkIf

end QModem.Lib.Nft
