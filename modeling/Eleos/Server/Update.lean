import Eleos.Server.HashMap

/-!
# SUVM を使う表への書き込み

`HashMap::add` と、そのあとの要求と追い出しを扱う。追い出しは、`page_fault` が枠を空けるときに行うものである。
-/

namespace Eleos.Server

open Pager Libc

section

variable (cfg : Config) (G : Gcm)

/-- 追い出せるページがあれば、一つ選んで追い出す。 -/
def evict (s : Sys) : Except Stop Sys :=
  match s.state.l1.getPageIndexToEvict with
  | .error _ => .ok s
  | .ok (it, l1) => do
      let t ← tryEvictPage G { s.state with l1 := l1 } it
      .ok { s with state := t }

/-- `HashMap::add` の繰り返し。`i` 回目から始める。`hint_write` は参照をたどったあとに立てるので、枠に変更の印は付かない。 -/
def suvmAddLoop (x : Int) (new : Item) : Nat → Nat → Sys → Except Stop Sys
  | 0, _, _ => .error .spin
  | fuel + 1, i, s => do
      let d := s.aptrs.length
      let s ← s.step cfg G id (.construct (x + 16 * ((new.key + UInt64.ofNat i).toNat : Nat)) 16)
      let (s, a, p) ← touch cfg G s d
      let (t, ks) := loadBytes s.state p a.addr 8
      let s := { s with state := t }
      if ofWordBytes ks = new.key ∨ ofWordBytes ks = -1 then do
        let s ← s.step cfg G id (.hint d true)
        { s with state := storeBytes s.state p a.addr new.bytes }.step cfg G id (.destroy d)
      else do
        let s ← s.step cfg G id (.destroy d)
        suvmAddLoop x new fuel (i + 1) s

/-- `HashMap::add`。 -/
def suvmAdd (s : Sys) (x : Int) (n : Nat) (new : Item) : Except Stop Sys := suvmAddLoop cfg G x new n 0 s

/-- 表への要求と、その間の追い出し。 -/
inductive Request where
  | get (key : UInt64)
  | evict

/-- 要求と追い出しの列の処理。 -/
def suvmRequests (x : Int) (n : Nat) : List Request → Sys → Except Stop Sys
  | [], s => .ok s
  | .get key :: rs, s => do
      let s ← suvmGet cfg G s x n key
      suvmRequests x n rs s
  | .evict :: rs, s => do
      let s ← evict G s
      suvmRequests x n rs s

/-- 表にある鍵の要求。 -/
def Request.Valid (n : Nat) : Request → Prop
  | .get key => key.toNat < n
  | .evict => True

/-- 鍵 `k` のほかの鍵の要求。 -/
def Request.Avoids (n : Nat) (k : UInt64) : Request → Prop
  | .get key => key.toNat < n ∧ key ≠ k
  | .evict => True

/-- `add` が終わり、そのあとほかの鍵の要求と追い出しをどう行っても、SUVM を通して見える項目は加えた項目である。 -/
def Survives (s : Sys) (x : Int) (n : Nat) (it : Item) : Prop :=
  ∃ s₁, suvmAdd cfg G s x n it = .ok s₁ ∧ ∀ rs, (∀ r ∈ rs, Request.Avoids n it.key r) →
    ∃ s₂, suvmRequests cfg G x n rs s₁ = .ok s₂ ∧ itemAt G s₂ (x + 16 * (it.key.toNat : Nat)) = some it

end

end Eleos.Server
