import WebRtc.Lib.Checked

/-! Two runs of a machine, of which the first makes additional steps. -/

namespace Machine

variable {σ ι : Type}

/-- The states of two runs with the same operations, where the first run may also make steps that
are `extra` in its state. -/
inductive Inserted (M : Machine σ ι) (extra : σ → ι → Prop) : σ → σ → Prop
  | initial {s : σ} (h : M.initial s) : Inserted M extra s s
  | both {s s' t t' : σ} {op : ι} (h : Inserted M extra s s') (he : M.enabled s op)
      (he' : M.enabled s' op) (hs : M.step s op = some t) (hs' : M.step s' op = some t') :
      Inserted M extra t t'
  | insert {s s' t : σ} (op : ι) (h : Inserted M extra s s') (he : M.enabled s op)
      (hx : extra s op) (hs : M.step s op = some t) : Inserted M extra t s'

theorem Inserted.preserved {M : Machine σ ι} {extra : σ → ι → Prop} {R : σ → σ → Prop}
    (h0 : ∀ s, M.initial s → R s s)
    (hboth : ∀ s s' op t t', R s s' → M.enabled s op → M.enabled s' op →
      M.step s op = some t → M.step s' op = some t' → R t t')
    (hinsert : ∀ s s' op t, R s s' → M.enabled s op → extra s op → M.step s op = some t → R t s')
    {s s' : σ} (h : M.Inserted extra s s') : R s s' := by
  induction h with
  | initial h => exact h0 _ h
  | both _ he he' hs hs' ih => exact hboth _ _ _ _ _ ih he he' hs hs'
  | insert op _ he hx hs ih => exact hinsert _ _ _ _ ih he hx hs

end Machine
