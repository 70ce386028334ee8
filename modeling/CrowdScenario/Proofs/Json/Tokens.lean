import CrowdScenario.Json.Written
import Mathlib

/-!
# Tokens of a tree

The tokens of a tree in the order of a text are put together to the tree again, wherever a value may
stand (`Json.Progress.builds`).
-/

namespace CrowdScenario.Json

namespace Written

mutual

def tokens : Written → List Token
  | null => [.null]
  | bool b => [.bool b]
  | number n => [.number n]
  | string s => [.string s]
  | array items => .openArray :: ([.comma].intercalate (itemTokens items) ++ [.closeArray])
  | object members => .openObject :: ([.comma].intercalate (memberTokens members) ++ [.closeObject])

def itemTokens : List Written → List (List Token)
  | [] => []
  | w :: ws => tokens w :: itemTokens ws

def memberTokens : List (Label × Written) → List (List Token)
  | [] => []
  | (label, w) :: ms => (.string label :: .colon :: tokens w) :: memberTokens ms

end

theorem itemTokens_eq_map (ws : List Written) : itemTokens ws = ws.map tokens := by
  induction ws with
  | nil => rfl
  | cons w ws ih => rw [itemTokens, ih, List.map_cons]

theorem memberTokens_eq_map (ms : List (Label × Written)) :
    memberTokens ms = ms.map fun m => .string m.1 :: .colon :: tokens m.2 := by
  induction ms with
  | nil => rfl
  | cons m ms ih => rw [memberTokens, ih, List.map_cons]

end Written

theorem intercalate_cons {α : Type} (mark as : List α) (rest : List (List α)) :
    mark.intercalate (as :: rest) = as ++ rest.flatMap fun bs => mark ++ bs := by
  induction rest generalizing as with
  | nil => simp
  | cons bs rest ih => rw [List.intercalate_cons_cons, ih, List.flatMap_cons, List.append_assoc,
      List.append_assoc]

namespace Progress

def run (p : Progress) (ts : List Token) : Option Progress := ts.foldlM step p

theorem run_append {p p' : Progress} {ts : List Token} (h : run p ts = some p')
    (ts' : List Token) : run p (ts ++ ts') = run p' ts' := by
  unfold run at *
  rw [List.foldlM_append, h]
  rfl

theorem run_arrayStart (w : Written) (stack : List Frame) (ts : List Token) :
    run (arrayStart stack) (w.tokens ++ ts) =
      run (value (.array [] :: stack)) (w.tokens ++ ts) := by
  cases w <;> rfl

/-- Whether the tokens of a tree are put together to it wherever a value may stand. -/
def Builds (w : Written) : Prop :=
  ∀ stack, run (value stack) w.tokens = some (complete w stack)

variable {stack : List Frame}

theorem run_items {ws : List Written} (hws : ∀ w ∈ ws, Builds w) (done : List Written) :
    run (inArray stack done) (ws.flatMap fun w => .comma :: w.tokens) =
      some (inArray stack (ws.reverse ++ done)) := by
  induction ws generalizing done with
  | nil => rfl
  | cons w ws ih =>
    have hw : run (inArray stack done) (.comma :: w.tokens) = some (inArray stack (w :: done)) :=
      hws w List.mem_cons_self (.array done :: stack)
    rw [List.flatMap_cons, run_append hw, ih fun v hv => hws v (List.mem_cons_of_mem w hv),
      List.reverse_cons, List.append_assoc, List.singleton_append]

theorem run_members {ms : List (Label × Written)} (hms : ∀ m ∈ ms, Builds m.2)
    (done : List (Label × Written)) :
    run (inObject stack done) (ms.flatMap fun m => .comma :: .string m.1 :: .colon :: m.2.tokens) =
      some (inObject stack (ms.reverse ++ done)) := by
  induction ms generalizing done with
  | nil => rfl
  | cons m ms ih =>
    have hm : run (inObject stack done) (.comma :: .string m.1 :: .colon :: m.2.tokens) =
        some (inObject stack (m :: done)) := hms m List.mem_cons_self (.object done m.1 :: stack)
    rw [List.flatMap_cons, run_append hm, ih fun v hv => hms v (List.mem_cons_of_mem m hv),
      List.reverse_cons, List.append_assoc, List.singleton_append]

theorem builds_array {ws : List Written} (h : ∀ w ∈ ws, Builds w) : Builds (.array ws) := by
  intro stack
  cases ws with
  | nil => rfl
  | cons w ws =>
    have hfirst : run (arrayStart stack) (w.tokens ++ []) = some (inArray stack [w]) := by
      rw [run_arrayStart, List.append_nil]
      exact h w List.mem_cons_self (.array [] :: stack)
    have hrest : run (inArray stack [w]) (ws.flatMap fun w => .comma :: w.tokens) =
        some (inArray stack (ws.reverse ++ [w])) :=
      run_items (fun v hv => h v (List.mem_cons_of_mem w hv)) [w]
    have htokens : Written.tokens (.array (w :: ws)) = .openArray ::
        (w.tokens ++ ((ws.flatMap fun w => .comma :: w.tokens) ++ [.closeArray])) := by
      rw [Written.tokens, Written.itemTokens_eq_map, List.map_cons, intercalate_cons,
        List.append_assoc, List.flatMap_map]
      rfl
    rw [List.append_nil] at hfirst
    have hstart : run (value stack) [.openArray] = some (arrayStart stack) := rfl
    rw [htokens, ← List.singleton_append, run_append hstart, run_append hfirst, run_append hrest,
      ← List.reverse_cons]
    have hlast : run (inArray stack (w :: ws).reverse) [.closeArray] =
        some (complete (.array (w :: ws).reverse.reverse) stack) := rfl
    rw [hlast, List.reverse_reverse]

theorem builds_object {ms : List (Label × Written)} (h : ∀ m ∈ ms, Builds m.2) :
    Builds (.object ms) := by
  intro stack
  cases ms with
  | nil => rfl
  | cons m ms =>
    have hfirst : run (value stack) (.openObject :: .string m.1 :: .colon :: m.2.tokens) =
        some (inObject stack [m]) := h m List.mem_cons_self (.object [] m.1 :: stack)
    have hrest : run (inObject stack [m])
        (ms.flatMap fun m => .comma :: .string m.1 :: .colon :: m.2.tokens) =
        some (inObject stack (ms.reverse ++ [m])) :=
      run_members (fun v hv => h v (List.mem_cons_of_mem m hv)) [m]
    have htokens : Written.tokens (.object (m :: ms)) =
        (.openObject :: .string m.1 :: .colon :: m.2.tokens) ++
          ((ms.flatMap fun m => .comma :: .string m.1 :: .colon :: m.2.tokens) ++
            [.closeObject]) := by
      rw [Written.tokens, Written.memberTokens_eq_map, List.map_cons, intercalate_cons,
        List.append_assoc, List.flatMap_map]
      rfl
    have hlast : run (inObject stack (m :: ms).reverse) [.closeObject] =
        some (complete (.object (m :: ms).reverse.reverse) stack) := rfl
    rw [htokens, run_append hfirst, run_append hrest, ← List.reverse_cons, hlast,
      List.reverse_reverse]

mutual

theorem builds : ∀ w : Written, Builds w
  | .array items => builds_array (builds_items items)
  | .object members => builds_object (builds_members members)
  | .null | .bool _ | .number _ | .string _ => fun _ => rfl

theorem builds_items : ∀ ws : List Written, ∀ w ∈ ws, Builds w
  | [] => List.forall_mem_nil _
  | w :: ws => List.forall_mem_cons.mpr ⟨builds w, builds_items ws⟩

theorem builds_members : ∀ ms : List (Label × Written), ∀ m ∈ ms, Builds m.2
  | [] => List.forall_mem_nil _
  | (_, w) :: ms => List.forall_mem_cons.mpr ⟨builds w, builds_members ms⟩

end

end Progress

end CrowdScenario.Json
