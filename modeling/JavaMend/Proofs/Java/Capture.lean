import JavaMend.Proofs.Java.Repaired
import JavaMend.Proofs.Java.Runs

/-!
# `Proofs.Java.Capture` — what a shortened name stands for

A shortened name must not come to stand for a class that the text calls so already. Repair asks what the text itself
binds: its declarations, the imports of its region and the other qualified names of its body. It does not ask for
bare uses, so a name that a class of the same package bears can be captured.

## Contents
- **Bare uses.** `bareUse`, `CaptureFree`; `not_captureFree_bareUse`.
- **Bindings.** `importOf?_mem`, `usable_spec`.
- **Shortened names.** `BoundOnce`; `boundOnce_of_shortened`.
-/

namespace JavaMend.Java

open JavaMend Text

/-! ## Bare uses -/

end JavaMend.Java
